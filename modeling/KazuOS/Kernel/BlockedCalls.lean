import KazuOS.Kernel.IpcCalls
import KazuOS.Kernel.Wakers

/-! Calls that return at once and calls that sleep first. SYS_IPC_RECV and a console SYS_READ
fill the caller's buffer in the section that finds something; a call that sleeps is
completed by whoever wakes it, and that section knows no buffer. -/
namespace KazuOS.Kernel

open KazuOS.Task KazuOS.Lib

/-- From the section of a call, with its result and the kernel after it, to the return: at
once, or when a waker and the commit have completed the call and a dispatcher has picked
the thread. -/
inductive Returned (cpu : Nat) (waker : Waker) (result : Nat × Kernel) : Nat → Prop where
  | atOnce (unblocked : result.1 ≠ blockToScheduler) : Returned cpu waker result result.1
  | woken {tid wakeValue value : Nat} {order : Order} {k' : Kernel} {t' : Thread} {mem : Memory}
      {route : Route} (blocked : result.1 = blockToScheduler)
      (completes : Completes cpu tid waker order result.2 wakeValue k')
      (dispatched : k'.tasks.threads.lookup tid = some t')
      (returns : Returns value (route.choose mem t').1) : Returned cpu waker result value

variable {k : Kernel} {cpu channelId bufPtr bufLen value : Nat}

/-! SYS_IPC_RECV. -/

def queueOf (k : Kernel) (channelId : Nat) : List (List UInt8) :=
  ((k.slot channelId).map (·.queue)).getD []

/-- The messages a SYS_IPC_RECV takes off its channel: those its section removes. Commit and
dispatch are sections of the threads lock that touch no channel. -/
def recvTakes (k : Kernel) (cpu channelId bufPtr bufLen : Nat) : List (List UInt8) :=
  (k.queueOf channelId).take ((k.queueOf channelId).length -
    ((k.sysIpcRecv cpu channelId bufPtr bufLen).2.queueOf channelId).length)

/-- The bytes a SYS_IPC_RECV copies to its buffer. -/
def recvWrites (k : Kernel) (cpu channelId bufPtr bufLen : Nat) : List UInt8 :=
  if bufPtr = 0 ∨ bufLen = 0 ∨ k.validateRange cpu bufPtr bufLen true = false then []
  else
    match (k.tryRecv channelId bufLen (k.callerPid cpu)).1 with
    | .ok bytes => bytes
    | _ => []

variable {c : Channel} {fd : Nat}

theorem queueOf_of_slot (h : k.slot channelId = some c) : k.queueOf channelId = c.queue := by
  simp [queueOf, h]

/-- A call fails, finds its channel empty and blocks, or takes the first message. -/
theorem sysIpcRecv_cases (k : Kernel) (cpu channelId bufPtr bufLen : Nat) :
    k.sysIpcRecv cpu channelId bufPtr bufLen = (failure, k) ∨
      (k.queueOf channelId = [] ∧
        (k.sysIpcRecv cpu channelId bufPtr bufLen).1 = blockToScheduler) ∨
      ∃ c message rest, k.slot channelId = some c ∧ c.queue = message :: rest ∧
        bufLen ≤ maxTransfer ∧ k.sysIpcRecv cpu channelId bufPtr bufLen =
          ((message.take bufLen).length, k.dequeue channelId c rest) ∧
        k.recvWrites cpu channelId bufPtr bufLen = message.take bufLen := by
  unfold sysIpcRecv recvWrites
  by_cases hnull : bufPtr = 0 ∨ bufLen = 0
  · exact .inl (if_pos hnull)
  · rw [if_neg hnull]
    cases hvalid : k.validateRange cpu bufPtr bufLen true with
    | false => exact .inl (by simp)
    | true =>
      have hchecked : ¬(bufPtr = 0 ∨ bufLen = 0 ∨ true = false) := by simpa using hnull
      simp only [Bool.not_true, Bool.false_eq_true, if_false, hchecked, tryRecv]
      cases hslot : k.slot channelId with
      | none => exact .inl rfl
      | some c =>
        apply Or.inr
        cases hqueue : c.queue with
        | nil =>
          apply Or.inl
          refine ⟨(queueOf_of_slot hslot).trans hqueue, ?_⟩
          by_cases hpid : k.callerPid cpu = 0 <;> simp [hqueue, hpid]
        | cons message rest =>
          apply Or.inr
          refine ⟨c, message, rest, rfl, hqueue, le_maxTransfer hvalid, ?_, ?_⟩
          · simp only [hqueue]
          · simp only [hqueue]

theorem queueOf_dequeue {message : List UInt8} {rest : List (List UInt8)}
    (hslot : k.slot channelId = some c) (hqueue : c.queue = message :: rest) :
    (k.dequeue channelId c rest).queueOf channelId = rest := by
  have hrest : rest = c.queue.tail := by rw [hqueue, List.tail_cons]
  have hafter := (sets_dequeue hslot).slot channelId
  rw [if_pos rfl, ← hrest] at hafter
  rw [queueOf_of_slot hafter, Channel.pop, hrest]

/-- A SYS_IPC_RECV that returns no failure has taken one message off the channel, copied as
much of it as fits to the caller's buffer and returned the number of bytes, exactly if the
channel held a message when it was called. -/
theorem recv_returns_message_iff
    (h : Returned cpu (.ipc (k.callerPid cpu) 0) (k.sysIpcRecv cpu channelId bufPtr bufLen) value)
    (hvalue : value ≠ failure) :
    (∃ message, k.recvTakes cpu channelId bufPtr bufLen = [message] ∧
      value = min message.length bufLen ∧
      k.recvWrites cpu channelId bufPtr bufLen = message.take bufLen) ↔
      k.queueOf channelId ≠ [] := by
  rcases k.sysIpcRecv_cases cpu channelId bufPtr bufLen with
    hfail | ⟨hempty, hblock⟩ | ⟨c, message, rest, hslot, hqueue, hlen, heq, hwrites⟩
  · cases h with
    | atOnce => exact absurd (by rw [hfail]) hvalue
    | woken blocked =>
      rw [hfail] at blocked
      exact absurd blocked failure_ne_blockToScheduler
  · apply iff_of_false
    · rintro ⟨message, htakes, -⟩
      simp [recvTakes, hempty] at htakes
    · simp [hempty]
  · have hcount : (message.take bufLen).length = min message.length bufLen := by
      rw [List.length_take, Nat.min_comm]
    cases h with
    | woken blocked =>
      rw [heq] at blocked
      exact absurd blocked (ne_blockToScheduler ((List.length_take_le _ _).trans hlen))
    | atOnce =>
      have hbefore : k.queueOf channelId = message :: rest := (queueOf_of_slot hslot).trans hqueue
      refine iff_of_true ⟨message, ?_, ?_, hwrites⟩ (by simp [hbefore])
      · rw [recvTakes, heq, queueOf_dequeue hslot hqueue, hbefore]
        simp
      · rw [heq, hcount]

/-- A kernel with one channel, and with a message in it. -/
def oneChannel : Kernel := (twoThreads.openChannel [97]).2

def oneMessage : Kernel := (oneChannel.trySend 1 [1, 2, 3]).2

/-- A buffer of two bytes gets the front of a queued message. -/
theorem recv_returns_message_iff_queued :
    Returned 0 (.ipc 1 0) (oneMessage.sysIpcRecv 0 1 userMin 2) 2 ∧
      ∃ message, oneMessage.recvTakes 0 1 userMin 2 = [message] ∧ 2 = min message.length 2 ∧
        oneMessage.recvWrites 0 1 userMin 2 = message.take 2 :=
  have hreturned : Returned 0 (.ipc 1 0) (oneMessage.sysIpcRecv 0 1 userMin 2) 2 :=
    .atOnce (by decide)
  ⟨hreturned, (recv_returns_message_iff hreturned (by decide)).mpr (by decide)⟩

/-- The main thread blocks in SYS_IPC_RECV and commits its frame. -/
def blockedRecv : Kernel :=
  (oneChannel.sysIpcRecv 0 1 userMin 8).2.onTasks (·.commitBlock 0 69480)

/-- The send completes the blocked call: it returns zero, its buffer is not written, and the
message stays in the channel. -/
theorem blocked_recv_takes_nothing :
    (blockedRecv.trySend 1 [1, 2, 3]).2.queueOf 1 = [[1, 2, 3]] ∧
      Completes 0 1 (.ipc 1 0) .commitFirst (oneChannel.sysIpcRecv 0 1 userMin 8).2 0
        (blockedRecv.trySend 1 [1, 2, 3]).2 ∧
      Returned 0 (.ipc 1 0) (oneChannel.sysIpcRecv 0 1 userMin 8) 0 ∧ 0 ≠ failure ∧
      ¬∃ message, oneChannel.recvTakes 0 1 userMin 8 = [message] ∧ 0 = min message.length 8 ∧
        oneChannel.recvWrites 0 1 userMin 8 = message.take 8 := by
  have hwakes : (Waker.ipc 1 0).wakes
      (blockedRecv.setSlot 1 (some ⟨[97], [[1, 2, 3]], [], [], 1⟩)) 1 = some 0 := rfl
  have hcompletes : Completes 0 1 (.ipc 1 0) .commitFirst
      (oneChannel.sysIpcRecv 0 1 userMin 8).2 0 (blockedRecv.trySend 1 [1, 2, 3]).2 :=
    .commitFirst rfl rfl (by decide : 69480 ≠ 0) rfl hwakes rfl
  have hreturned : ∃ t', (blockedRecv.trySend 1 [1, 2, 3]).2.tasks.threads.lookup 1 = some t' ∧
      Returns 0 (Route.enter.choose (fun _ => 0) t').1 := ⟨_, rfl, rfl⟩
  obtain ⟨t', ht', hreturns⟩ := hreturned
  refine ⟨rfl, hcompletes, .woken (by decide) hcompletes ht' hreturns, by decide, ?_⟩
  rintro ⟨message, htakes, -⟩
  cases htakes

/-! SYS_READ on the console. -/

/-- The key a console read finds. -/
def nextKey (k : Kernel) (cpu : Nat) : Option UInt8 :=
  if k.kbdLockedOut cpu then none else k.getRaw.1

/-- The bytes a SYS_READ of the console stores in its buffer. -/
def consoleWrites (k : Kernel) (cpu bufPtr bufLen : Nat) : List UInt8 :=
  if bufPtr = 0 ∨ bufLen = 0 ∨ k.validateRange cpu bufPtr bufLen true = false then []
  else (k.nextKey cpu).toList

/-- A console read completed by a key: the one it finds in the ring, or the one that wakes
it. -/
inductive ReadsKey (k : Kernel) (cpu fd bufPtr bufLen : Nat) : UInt8 → Nat → Prop where
  | buffered {byte : UInt8} {value : Nat} (found : k.nextKey cpu = some byte)
      (returned : Returned cpu (.key byte.toNat) (k.sysRead cpu fd bufPtr bufLen 0) value) :
      ReadsKey k cpu fd bufPtr bufLen byte value
  | typed {byte : UInt8} {value : Nat} (empty : k.nextKey cpu = none)
      (returned : Returned cpu (.key byte.toNat) (k.sysRead cpu fd bufPtr bufLen 0) value) :
      ReadsKey k cpu fd bufPtr bufLen byte value

/-- A console read of a valid buffer. -/
structure ReadsConsole (k : Kernel) (cpu fd bufPtr bufLen : Nat) : Prop where
  buffer : bufPtr ≠ 0
  length : 1 ≤ bufLen
  valid : k.validateRange cpu bufPtr bufLen true = true
  console : k.getFd (k.callerPid cpu) fd = some .consoleIn

theorem ReadsConsole.sysRead_eq (h : k.ReadsConsole cpu fd bufPtr bufLen) :
    k.sysRead cpu fd bufPtr bufLen 0 = k.readConsole cpu := by
  have hlen : bufLen ≠ 0 := Nat.ne_of_gt h.length
  simp only [sysRead, h.buffer, hlen, or_self, if_false, h.valid, Bool.not_true,
    Bool.false_eq_true, h.console]

theorem ReadsConsole.consoleWrites_eq (h : k.ReadsConsole cpu fd bufPtr bufLen) :
    k.consoleWrites cpu bufPtr bufLen = (k.nextKey cpu).toList := by
  have hlen : bufLen ≠ 0 := Nat.ne_of_gt h.length
  simp [consoleWrites, h.buffer, hlen, h.valid]

/-- A console read returns at once exactly if it finds a key. -/
theorem readConsole_fst (k : Kernel) (cpu : Nat) :
    (k.readConsole cpu).1 = if (k.nextKey cpu).isSome then 1 else blockToScheduler := by
  unfold readConsole nextKey
  cases k.kbdLockedOut cpu with
  | true => rfl
  | false =>
    simp only [Bool.false_eq_true, if_false]
    split
    · rename_i h
      simp [h]
    · rename_i h
      simp [h]

/-- A console read returns one and stores the key that completes it exactly if the key was in
the ring when it was called. -/
theorem read_stores_key_iff {fd : Nat} {byte : UInt8} (hcall : k.ReadsConsole cpu fd bufPtr bufLen)
    (h : k.ReadsKey cpu fd bufPtr bufLen byte value) :
    (value = 1 ∧ k.consoleWrites cpu bufPtr bufLen = [byte]) ↔ k.nextKey cpu ≠ none := by
  rw [hcall.consoleWrites_eq]
  cases h with
  | buffered found returned =>
    have hfst := k.readConsole_fst cpu
    rw [hcall.sysRead_eq] at returned
    simp only [found, Option.isSome_some, if_true] at hfst
    cases returned with
    | atOnce => simp [found, hfst]
    | woken blocked =>
      rw [hfst] at blocked
      exact absurd blocked (ne_blockToScheduler (by decide : 1 ≤ maxTransfer))
  | typed empty => simp [empty]

theorem twoThreads_readsConsole : twoThreads.ReadsConsole 0 0 userMin 1 :=
  ⟨by decide, by decide, by decide, rfl⟩

/-- A key that was typed before the call. -/
theorem read_stores_key_iff_buffered :
    (twoThreads.bufferByte 97).ReadsKey 0 0 userMin 1 97 1 ∧
      (twoThreads.bufferByte 97).consoleWrites 0 userMin 1 = [97] := by
  have hcall : (twoThreads.bufferByte 97).ReadsConsole 0 0 userMin 1 :=
    ⟨by decide, by decide, by decide, rfl⟩
  have hread : (twoThreads.bufferByte 97).ReadsKey 0 0 userMin 1 97 1 :=
    .buffered rfl (.atOnce (by decide))
  exact ⟨hread, ((read_stores_key_iff hcall hread).mpr (by decide)).2⟩

/-- A key typed while the reader sleeps: the call returns the key instead of the count, and
the buffer is not written. -/
theorem typed_key_is_not_stored :
    twoThreads.ReadsConsole 0 0 userMin 1 ∧ twoThreads.ReadsKey 0 0 userMin 1 97 97 ∧
      ¬(97 = 1 ∧ twoThreads.consoleWrites 0 userMin 1 = [97]) := by
  have hcompletes : ∃ k' t', Completes 0 1 (.key 97) .commitFirst
      (twoThreads.sysRead 0 0 userMin 1 0).2 97 k' ∧ k'.tasks.threads.lookup 1 = some t' ∧
        Returns 97 (Route.enter.choose (fun _ => 0) t').1 :=
    ⟨_, _, .commitFirst rfl rfl (by decide : 69480 ≠ 0) rfl rfl rfl, rfl, rfl⟩
  obtain ⟨k', t', hcompletes, ht', hreturns⟩ := hcompletes
  refine ⟨twoThreads_readsConsole, .typed rfl (.woken (by decide) hcompletes ht' hreturns), ?_⟩
  decide

end KazuOS.Kernel
