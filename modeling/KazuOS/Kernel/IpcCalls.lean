import KazuOS.Kernel.Reclaim
import KazuOS.Lib.Slots

/-! The IPC syscalls, and channels as automata: an operation changes the one channel its id
denotes, and only closing frees the channel's place. -/
namespace KazuOS

namespace Channel

/-- A message more and a waiting receiver less. -/
def push (c : Channel) (data : List UInt8) : Channel :=
  { c with queue := c.queue ++ [data], recvWaiters := c.recvWaiters.tail }

/-- The first message and a waiting sender less. -/
def pop (c : Channel) : Channel :=
  { c with queue := c.queue.tail, sendWaiters := c.sendWaiters.tail }

end Channel

namespace Kernel

open KazuOS.Memory KazuOS.Task KazuOS.Lib

/-! The syscalls. A call gets the bytes it reads from user memory as an argument. -/

def addSendWaiter (k : Kernel) (channelId pid : Nat) : Kernel :=
  match k.slot channelId with
  | some c => k.setSlot channelId (some { c with sendWaiters := c.sendWaiters ++ [pid] })
  | none => k

def sysIpcOpen (k : Kernel) (cpu ptr : Nat) (name : List UInt8) : Nat × Kernel :=
  if ptr = 0 ∨ name = [] then (failure, k)
  else if !k.validateRange cpu ptr name.length false then (failure, k)
  else k.openChannel name

def sysIpcSend (k : Kernel) (cpu channelId bufPtr : Nat) (data : List UInt8) : Nat × Kernel :=
  if bufPtr = 0 ∨ data = [] then (failure, k)
  else if !k.validateRange cpu bufPtr data.length false then (failure, k)
  else
    match k.trySend channelId data with
    | (.ok, k) => (0, k)
    | (.error, k) => (failure, k)
    | (.block, k) =>
        match k.tasks.currentUserPid cpu with
        | some pid =>
            (blockToScheduler, (k.addSendWaiter channelId pid).sleepOnChannel pid channelId)
        | none => (blockToScheduler, k)

def sysIpcTryRecv (k : Kernel) (cpu channelId bufPtr bufLen : Nat) : Nat × Kernel :=
  if bufPtr = 0 ∨ bufLen = 0 then (failure, k)
  else if !k.validateRange cpu bufPtr bufLen true then (failure, k)
  else
    match k.tryRecvNonblock channelId bufLen with
    | (.ok message, k) => (message.length, k)
    | (.error, k) => (failure, k)
    | (.block, k) => (0, k)

def sysIpcClose (k : Kernel) (channelId : Nat) : Nat × Kernel := (0, k.closeChannel channelId)

inductive IpcCall where
  | openName (ptr : Nat) (name : List UInt8)
  | send (channelId bufPtr : Nat) (data : List UInt8)
  | recv (channelId bufPtr bufLen : Nat)
  | tryRecv (channelId bufPtr bufLen : Nat)
  | close (channelId : Nat)

def ipcCall (k : Kernel) (cpu : Nat) : IpcCall → Nat × Kernel
  | .openName ptr name => k.sysIpcOpen cpu ptr name
  | .send channelId bufPtr data => k.sysIpcSend cpu channelId bufPtr data
  | .recv channelId bufPtr bufLen => k.sysIpcRecv cpu channelId bufPtr bufLen
  | .tryRecv channelId bufPtr bufLen => k.sysIpcTryRecv cpu channelId bufPtr bufLen
  | .close channelId => k.sysIpcClose channelId

/-- A full queue does not hold up `try_send`. -/
theorem trySend_ne_block (k : Kernel) (channelId : Nat) (data : List UInt8) :
    (k.trySend channelId data).1 ≠ .block := by
  unfold trySend
  split
  · simp
  · split
    · simp
    · simp

/-! Operations on a channel. -/

inductive ChannelOp where
  | send (data : List UInt8)
  | sendReliable (data : List UInt8)
  | waitSpace
  | recv (bufLen : Nat)
  | recvNonblock (bufLen : Nat)
  | abort
  | close
  deriving DecidableEq

/-- An operation of a process on a channel id. -/
def ChannelOp.apply (k : Kernel) (pid channelId : Nat) : ChannelOp → Kernel
  | .send data => (k.trySend channelId data).2
  | .sendReliable data => (k.trySendReliable channelId data).2
  | .waitSpace => (k.waitSendSpace channelId pid).2
  | .recv bufLen => (k.tryRecv channelId bufLen pid).2
  | .recvNonblock bufLen => (k.tryRecvNonblock channelId bufLen).2
  | .abort => k.abortSenders channelId
  | .close => k.closeChannel channelId

/-- What an operation makes of its channel; `none` if it frees the channel's place. -/
def ChannelOp.next (pid : Nat) (c : Channel) : ChannelOp → Option Channel
  | .send data =>
      if maxMsgSize < data.length then some c
      else some ({ c with queue := c.queue.drop (c.queue.length + 1 - maxQueue) }.push data)
  | .sendReliable data =>
      if maxMsgSize < data.length ∨ maxQueue ≤ c.queue.length then some c else some (c.push data)
  | .waitSpace =>
      if c.queue.length < maxQueue ∨ pid = 0 ∨ pid ∈ c.sendWaiters then some c
      else some { c with sendWaiters := c.sendWaiters ++ [pid] }
  | .recv _ =>
      if c.queue ≠ [] then some c.pop
      else if pid = 0 then some c
      else some { c with recvWaiters := c.recvWaiters ++ [pid] }
  | .recvNonblock _ => if c.queue ≠ [] then some c.pop else some c
  | .abort => some { c with queue := [], sendWaiters := [] }
  | .close =>
      if 1 < c.refCount then some { c with refCount := c.refCount - 1 }
      else if c.queue ≠ [] then some { c with refCount := 0 }
      else none

variable {k : Kernel} {channelId : Nat} {c : Channel}

/-! The places of the table. -/

theorem slot_zero (k : Kernel) : k.slot 0 = none := rfl

theorem slot_succ (k : Kernel) (i : Nat) : k.slot (i + 1) = k.channels[i]?.join := by
  simp [slot]

theorem slot_congr {k' : Kernel} (h : k'.channels = k.channels) (j : Nat) : k'.slot j = k.slot j := by
  unfold slot
  rw [h]

theorem wakeupIpcWaiter_channels (k : Kernel) (pid retval : Nat) :
    (k.wakeupIpcWaiter pid retval).channels = k.channels := rfl

theorem sleepOnChannel_channels (k : Kernel) (pid channelId : Nat) :
    (k.sleepOnChannel pid channelId).channels = k.channels := rfl

theorem wakeAllSenders_channels (k : Kernel) (pids : List Nat) :
    (pids.foldl (fun k pid => k.wakeupIpcWaiter pid 0) k).channels = k.channels := by
  induction pids generalizing k with
  | nil => rfl
  | cons pid pids ih => exact ih (k.wakeupIpcWaiter pid 0)

/-- A changed channel: the place of its id, and no other, has new contents, and the table
does not outgrow its limit. -/
structure Sets (k : Kernel) (channelId : Nat) (content : Option Channel) (k' : Kernel) : Prop where
  slot : ∀ j, k'.slot j = if j = channelId then content else k.slot j
  length : k'.channels.length ≤ max k.channels.length maxChannels

variable {content : Option Channel}

theorem sets_of_channels {i : Nat} {channels : List (Option Channel)}
    (h : ∀ j, channels[j]?.join = if j = i then content else k.channels[j]?.join)
    (hlength : channels.length ≤ max k.channels.length maxChannels) :
    k.Sets (i + 1) content { k with channels } := by
  refine ⟨?_, hlength⟩
  intro j
  cases j with
  | zero => simp [slot_zero]
  | succ j => simp only [slot_succ, h j, Nat.add_right_cancel_iff]

theorem sets_setSlot (h : k.slot channelId = some c) (content : Option Channel) :
    k.Sets channelId content (k.setSlot channelId content) := by
  cases channelId with
  | zero => cases h
  | succ i =>
    rw [slot_succ] at h
    exact sets_of_channels (slot_set (lt_of_slot h) content) (by simp)

theorem sets_self (h : k.slot channelId = some c) : k.Sets channelId (some c) k := by
  refine ⟨?_, Nat.le_max_left _ _⟩
  intro j
  split
  · rename_i hj
    rw [hj, h]
  · rfl

theorem Sets.congr {k₁ k₂ : Kernel} (h : k.Sets channelId content k₁)
    (hsame : k₂.channels = k₁.channels) : k.Sets channelId content k₂ := by
  refine ⟨?_, hsame ▸ h.length⟩
  intro j
  rw [slot_congr hsame, h.slot j]

theorem sets_enqueue (h : k.slot channelId = some c) (queue : List (List UInt8))
    (data : List UInt8) :
    k.Sets channelId (some ({ c with queue }.push data))
      (k.enqueue channelId { c with queue } data) := by
  unfold enqueue Channel.push
  cases hwaiters : c.recvWaiters with
  | nil => simpa [hwaiters] using sets_setSlot h _
  | cons pid waiters =>
    exact (sets_setSlot h _).congr (wakeupIpcWaiter_channels _ _ _)

theorem sets_dequeue (h : k.slot channelId = some c) :
    k.Sets channelId (some c.pop) (k.dequeue channelId c c.queue.tail) := by
  unfold dequeue Channel.pop
  cases hwaiters : c.sendWaiters with
  | nil => simpa [hwaiters] using sets_setSlot h _
  | cons pid waiters =>
    exact (sets_setSlot h _).congr (wakeupIpcWaiter_channels _ _ _)

theorem sets_abortSenders (h : k.slot channelId = some c) :
    k.Sets channelId (some { c with queue := [], sendWaiters := [] })
      (k.abortSenders channelId) := by
  simp only [abortSenders, h]
  exact (sets_setSlot h _).congr (wakeAllSenders_channels _ _)

theorem sets_closeChannel (h : k.slot channelId = some c) (pid : Nat) :
    k.Sets channelId (ChannelOp.close.next pid c) (k.closeChannel channelId) := by
  simp only [closeChannel, h, ChannelOp.next]
  split
  · exact sets_setSlot h _
  · split
    · exact sets_setSlot h _
    · exact sets_setSlot h none

theorem sets_tryRecv (h : k.slot channelId = some c) (bufLen pid : Nat) :
    k.Sets channelId ((ChannelOp.recv bufLen).next pid c) (k.tryRecv channelId bufLen pid).2 := by
  simp only [tryRecv, h, ChannelOp.next]
  cases hqueue : c.queue with
  | nil =>
    by_cases hpid : pid = 0
    · simpa [hpid] using sets_self h
    · simp only [ne_eq, hpid, not_false_eq_true, if_true, not_true_eq_false, if_false]
      exact (sets_setSlot h _).congr (sleepOnChannel_channels _ _ _)
  | cons message rest =>
    have htail : c.queue.tail = rest := by rw [hqueue, List.tail_cons]
    simpa [htail] using sets_dequeue h

theorem sets_tryRecvNonblock (h : k.slot channelId = some c) (bufLen pid : Nat) :
    k.Sets channelId ((ChannelOp.recvNonblock bufLen).next pid c)
      (k.tryRecvNonblock channelId bufLen).2 := by
  simp only [tryRecvNonblock, h, ChannelOp.next]
  cases hqueue : c.queue with
  | nil => simpa using sets_self h
  | cons message rest =>
    have htail : c.queue.tail = rest := by rw [hqueue, List.tail_cons]
    simpa [htail] using sets_dequeue h

theorem sets_waitSendSpace (h : k.slot channelId = some c) (pid : Nat) :
    k.Sets channelId (ChannelOp.waitSpace.next pid c) (k.waitSendSpace channelId pid).2 := by
  simp only [waitSendSpace, h, ChannelOp.next]
  by_cases hroom : c.queue.length < maxQueue
  · simpa [hroom] using sets_self h
  · by_cases hwaits : pid ≠ 0 ∧ pid ∉ c.sendWaiters
    · rw [if_neg hroom, if_pos hwaits, if_neg (by simp [hroom, hwaits.1, hwaits.2])]
      exact (sets_setSlot h _).congr (sleepOnChannel_channels _ _ _)
    · have hskip : pid = 0 ∨ pid ∈ c.sendWaiters := by
        by_contra hneither
        exact hwaits (not_or.mp hneither)
      simpa [hroom, hwaits, hskip] using sets_self h

/-- An operation makes of a channel what its automaton says. -/
theorem ChannelOp.sets_apply (h : k.slot channelId = some c) (pid : Nat) (op : ChannelOp) :
    k.Sets channelId (op.next pid c) (op.apply k pid channelId) := by
  cases op with
  | send data =>
    simp only [ChannelOp.apply, ChannelOp.next, trySend, h]
    split
    · exact sets_self h
    · exact sets_enqueue h _ data
  | sendReliable data =>
    simp only [ChannelOp.apply, ChannelOp.next, trySendReliable, h]
    by_cases hsize : maxMsgSize < data.length
    · simpa [hsize] using sets_self h
    · by_cases hfull : maxQueue ≤ c.queue.length
      · simpa [hsize, hfull] using sets_self h
      · simpa [hsize, hfull] using sets_enqueue h c.queue data
  | waitSpace => exact sets_waitSendSpace h pid
  | recv bufLen => exact sets_tryRecv h bufLen pid
  | recvNonblock bufLen => exact sets_tryRecvNonblock h bufLen pid
  | abort => exact sets_abortSenders h
  | close => exact sets_closeChannel h pid

/-- An operation on an id that denotes no channel does nothing. -/
theorem ChannelOp.apply_of_none (h : k.slot channelId = none) (pid : Nat) (op : ChannelOp) :
    op.apply k pid channelId = k := by
  cases op with
  | send data =>
    simp only [ChannelOp.apply, trySend, h]
    split
    · rfl
    · rfl
  | sendReliable data =>
    simp only [ChannelOp.apply, trySendReliable, h]
    split
    · rfl
    · rfl
  | waitSpace => simp only [ChannelOp.apply, waitSendSpace, h]
  | recv bufLen => simp only [ChannelOp.apply, tryRecv, h]
  | recvNonblock bufLen => simp only [ChannelOp.apply, tryRecvNonblock, h]
  | abort => simp only [ChannelOp.apply, abortSenders, h]
  | close => simp only [ChannelOp.apply, closeChannel, h]

/-- Only closing touches the count or frees the place, and nothing touches the name. -/
theorem ChannelOp.next_keeps {op : ChannelOp} (hop : op ≠ .close) (pid : Nat) (c : Channel) :
    ∃ c', op.next pid c = some c' ∧ c'.name = c.name ∧ c'.refCount = c.refCount := by
  cases op with
  | send data | sendReliable data | waitSpace =>
    simp only [ChannelOp.next]
    split
    · exact ⟨c, rfl, rfl, rfl⟩
    · exact ⟨_, rfl, rfl, rfl⟩
  | recv bufLen =>
    simp only [ChannelOp.next]
    split
    · exact ⟨_, rfl, rfl, rfl⟩
    · split
      · exact ⟨c, rfl, rfl, rfl⟩
      · exact ⟨_, rfl, rfl, rfl⟩
  | recvNonblock bufLen =>
    simp only [ChannelOp.next]
    split
    · exact ⟨_, rfl, rfl, rfl⟩
    · exact ⟨c, rfl, rfl, rfl⟩
  | abort => exact ⟨_, rfl, rfl, rfl⟩
  | close => exact absurd rfl hop

/-! Opening. -/

/-- The three ends of `open`: refusal, one more reference to the channel of that name, or a
new channel in a free place. -/
inductive Opens (k : Kernel) (name : List UInt8) : Nat → Kernel → Prop where
  | refused : Opens k name failure k
  | known {channelId : Nat} {c : Channel} {k' : Kernel} (denotes : k.slot channelId = some c)
      (named : c.name = name)
      (sets : k.Sets channelId (some { c with refCount := c.refCount + 1 }) k') :
      Opens k name channelId k'
  | fresh {channelId : Nat} {k' : Kernel} (free : k.slot channelId = none)
      (within : channelId ≤ max k.channels.length maxChannels)
      (unnamed : ∀ j c, k.slot j = some c → c.name ≠ name)
      (sets : k.Sets channelId (some ⟨name, [], [], [], 1⟩) k') : Opens k name channelId k'

theorem mem_channels_of_slot (h : k.slot channelId = some c) : some c ∈ k.channels := by
  unfold slot at h
  split at h
  · cases h
  · exact List.mem_of_getElem? (Option.join_eq_some_iff.mp h)

theorem opens_openChannel (k : Kernel) (name : List UInt8) :
    k.Opens name (k.openChannel name).1 (k.openChannel name).2 := by
  unfold openChannel
  split
  · exact .refused
  · dsimp only
    rcases findIdx?_find?_cases (fun c : Option Channel => decide (c.map (·.name) = some name))
      k.channels with ⟨hidx, -, hnone⟩ | ⟨i, place, hidx, hfind, hget⟩
    · have hunnamed : ∀ j c, k.slot j = some c → c.name ≠ name := by
        intro j c hj
        simpa using hnone _ (mem_channels_of_slot hj)
      rw [hidx]
      cases hfree : k.channels.findIdx? Option.isNone with
      | some i =>
        obtain ⟨hlt, hhole⟩ := slot_of_findIdx? hfree
        exact .fresh ((k.slot_succ i).trans hhole) (Nat.le_trans hlt (Nat.le_max_left _ _)) hunnamed
          (sets_of_channels (slot_set hlt _) (by simp))
      | none =>
        dsimp only
        split
        · exact .refused
        · rename_i hroom
          have hwithin : k.channels.length + 1 ≤ max k.channels.length maxChannels :=
            Nat.le_trans (Nat.lt_of_not_le hroom) (Nat.le_max_right _ _)
          exact .fresh ((k.slot_succ _).trans (slot_length _)) hwithin hunnamed
            (sets_of_channels (slot_concat k.channels _) (by simpa using hwithin))
    · have hnamed : place.map (·.name) = some name := by simpa using List.find?_some hfind
      obtain ⟨c, rfl, hname⟩ := Option.map_eq_some_iff.mp hnamed
      have hslot : k.slot (i + 1) = some c := by
        rw [slot_succ, hget]
        rfl
      simp only [hidx, hfind, Option.join_some]
      exact .known hslot hname (sets_setSlot hslot _)

theorem le_length_of_slot (h : k.slot channelId = some c) : channelId ≤ k.channels.length := by
  cases channelId with
  | zero => cases h
  | succ i =>
    rw [slot_succ] at h
    exact lt_of_slot h

/-! Whatever happens to channels: the operations of processes and of the audio device, the
end of a process, and everything that leaves channels alone. -/

inductive IpcEvent where
  | opens (pid : Nat) (name : List UInt8)
  | call (pid channelId : Nat) (op : ChannelOp)
  | exit (cpu : Nat)
  | other (f : Kernel → Kernel)

def IpcEvent.apply (k : Kernel) : IpcEvent → Kernel
  | .opens _ name => (k.openChannel name).2
  | .call pid channelId op => op.apply k pid channelId
  | .exit cpu => k.teardown cpu
  | .other f => { f k with channels := k.channels }

/-- The event a syscall is once its arguments have passed. -/
def IpcCall.event (k : Kernel) (cpu : Nat) : IpcCall → IpcEvent
  | .openName _ name => .opens (k.callerPid cpu) name
  | .send channelId _ data => .call (k.callerPid cpu) channelId (.send data)
  | .recv channelId _ bufLen => .call (k.callerPid cpu) channelId (.recv bufLen)
  | .tryRecv channelId _ bufLen => .call (k.callerPid cpu) channelId (.recvNonblock bufLen)
  | .close channelId => .call (k.callerPid cpu) channelId .close

theorem ipcCall_cases (k : Kernel) (cpu : Nat) (call : IpcCall) :
    k.ipcCall cpu call = (failure, k) ∨ (k.ipcCall cpu call).2 = (call.event k cpu).apply k := by
  cases call with
  | openName ptr name =>
    simp only [ipcCall, sysIpcOpen]
    split
    · exact .inl rfl
    · split
      · exact .inl rfl
      · exact .inr rfl
  | send channelId bufPtr data =>
    simp only [ipcCall, sysIpcSend]
    split
    · exact .inl rfl
    · split
      · exact .inl rfl
      · apply Or.inr
        simp only [IpcCall.event, IpcEvent.apply, ChannelOp.apply]
        split
        · rename_i h
          rw [h]
        · rename_i h
          rw [h]
        · rename_i h
          exact absurd (congrArg Prod.fst h) (trySend_ne_block k channelId data)
  | recv channelId bufPtr bufLen =>
    simp only [ipcCall, sysIpcRecv]
    split
    · exact .inl rfl
    · split
      · exact .inl rfl
      · apply Or.inr
        simp only [IpcCall.event, IpcEvent.apply, ChannelOp.apply]
        split <;> (rename_i h; rw [h])
  | tryRecv channelId bufPtr bufLen =>
    simp only [ipcCall, sysIpcTryRecv]
    split
    · exact .inl rfl
    · split
      · exact .inl rfl
      · apply Or.inr
        simp only [IpcCall.event, IpcEvent.apply, ChannelOp.apply]
        split <;> (rename_i h; rw [h])
  | close channelId => exact .inr rfl

theorem abortSenders_channels (k : Kernel) (channelId : Nat) :
    (k.abortSenders channelId).channels =
      match k.slot channelId with
      | some c => k.channels.set (channelId - 1) (some { c with queue := [], sendWaiters := [] })
      | none => k.channels := by
  unfold abortSenders
  split
  · rename_i h
    rw [h]
  · rename_i c h
    rw [h]
    exact wakeAllSenders_channels _ _

variable {k' : Kernel} {op : ChannelOp} {pid : Nat}

theorem abortSenders_congr (h : k'.channels = k.channels) (channelId : Nat) :
    (k'.abortSenders channelId).channels = (k.abortSenders channelId).channels := by
  rw [abortSenders_channels, abortSenders_channels, slot_congr h, h]

theorem releaseIrqForPid_channels (h : k'.audioTables = k.audioTables) (pid : Nat) :
    (k'.releaseIrqForPid pid).channels =
      if k.driverIrq.owner = pid ∧ k.driverIrq.audio then (k.abortSenders k.audioChannel).channels
      else k.channels := by
  simp only [audioTables, Prod.mk.injEq] at h
  obtain ⟨hchannels, hchannel, hirq⟩ := h
  unfold releaseIrqForPid
  rw [hirq]
  by_cases howner : k.driverIrq.owner = pid
  · cases haudio : k.driverIrq.audio with
    | true =>
      simp only [howner, if_true, and_self, driverStopped, hchannel]
      apply abortSenders_congr
      exact hchannels
    | false => simp [howner, hchannels]
  · simp [howner, hchannels]

/-- The channel that loses its messages when the process on a CPU ends: the audio device's,
if the process is its driver. -/
def abortedBy (k : Kernel) (cpu : Nat) : Option Nat :=
  let pid := k.tasks.currentPid cpu
  if pid ≠ 0 ∧ k.driverIrq.owner = pid ∧ k.driverIrq.audio then some k.audioChannel else none

theorem detach_channels (h : k'.audioTables = k.audioTables) (cpu pid : Nat) :
    (k'.detach cpu pid).channels =
      if k.driverIrq.owner = pid ∧ k.driverIrq.audio then (k.abortSenders k.audioChannel).channels
      else k.channels := by
  obtain ⟨fbOwner, keyboard, hreleased⟩ := k'.releaseFramebuffer_eq pid
  unfold detach
  rw [hreleased]
  apply releaseIrqForPid_channels
  rw [closeAll_audioTables]
  exact h

theorem teardown_channels (k : Kernel) (cpu : Nat) :
    (k.teardown cpu).channels =
      match k.abortedBy cpu with
      | some channelId => (k.abortSenders channelId).channels
      | none => k.channels := by
  by_cases hpid : k.tasks.currentPid cpu = 0
  · have hnone : k.abortedBy cpu = none := by simp [abortedBy, hpid]
    unfold teardown
    simp only [hpid, if_true, hnone]
    split
    · rfl
    · rfl
  · obtain ⟨tasks, hteardown⟩ := k.teardown_eq hpid
    obtain ⟨_, _, _, _, _, _, hfreed⟩ := (k.disowned cpu).freeMemory_eq cpu (k.tasks.currentPid cpu)
    rw [hteardown, hfreed]
    have hsame : (k.onTasks (·.killChildren (k.tasks.currentPid cpu))).audioTables =
        k.audioTables := rfl
    have hchannels := detach_channels hsame cpu (k.tasks.currentPid cpu)
    by_cases hdriver : k.driverIrq.owner = k.tasks.currentPid cpu ∧ k.driverIrq.audio
    · rw [if_pos hdriver] at hchannels
      rw [abortedBy, if_pos ⟨hpid, hdriver⟩]
      exact hchannels
    · rw [if_neg hdriver] at hchannels
      rw [abortedBy, if_neg fun h => hdriver h.2]
      exact hchannels

/-- The operation an event is on a channel, with the process that performs it. -/
def IpcEvent.opOn (k : Kernel) (channelId : Nat) : IpcEvent → Option (Nat × ChannelOp)
  | .call pid j op => if j = channelId then some (pid, op) else none
  | .exit cpu => if k.abortedBy cpu = some channelId then some (0, .abort) else none
  | .opens _ _ | .other _ => none

theorem slot_call (hslot : k.slot channelId = some c) (pid j : Nat) (op : ChannelOp) :
    (op.apply k pid j).slot channelId = if j = channelId then op.next pid c else some c := by
  by_cases hj : j = channelId
  · subst hj
    simpa using (op.sets_apply hslot pid).slot j
  · cases hother : k.slot j with
    | none => simp [ChannelOp.apply_of_none hother, hslot, hj]
    | some d => simp [(op.sets_apply hother pid).slot, Ne.symm hj, hslot, hj]

/-- What an event makes of a channel. -/
theorem slot_event (hslot : k.slot channelId = some c) (e : IpcEvent) :
    match e.opOn k channelId with
    | some (pid, op) => (e.apply k).slot channelId = op.next pid c
    | none => ∃ refCount ≥ c.refCount, (e.apply k).slot channelId = some { c with refCount } := by
  have hkept : ∃ refCount ≥ c.refCount, some c = some { c with refCount } :=
    ⟨c.refCount, Nat.le_refl _, rfl⟩
  cases e with
  | opens pid name =>
    simp only [IpcEvent.opOn, IpcEvent.apply]
    have hopens := opens_openChannel k name
    generalize hid : (k.openChannel name).1 = id at hopens
    generalize (k.openChannel name).2 = k' at hopens
    cases hopens with
    | refused => simpa [hslot] using hkept
    | @known id d k' denotes named sets =>
      rw [sets.slot]
      split
      · rename_i hsame
        rw [← hsame, hslot] at denotes
        cases denotes
        exact ⟨_, Nat.le_succ _, rfl⟩
      · simpa [hslot] using hkept
    | @fresh id k' free within unnamed sets =>
      rw [sets.slot, if_neg]
      · simpa [hslot] using hkept
      · rintro rfl
        rw [hslot] at free
        cases free
  | call pid j op =>
    simp only [IpcEvent.opOn, IpcEvent.apply, slot_call hslot]
    by_cases hj : j = channelId
    · simp [hj]
    · simpa [hj] using hkept
  | exit cpu =>
    simp only [IpcEvent.opOn, IpcEvent.apply]
    have hchannels := k.teardown_channels cpu
    cases haborted : k.abortedBy cpu with
    | none =>
      simp only [haborted] at hchannels
      simpa [slot_congr hchannels, hslot] using hkept
    | some id =>
      simp only [haborted] at hchannels
      have habort := slot_call hslot 0 id .abort
      rw [ChannelOp.apply] at habort
      rw [slot_congr hchannels, habort]
      by_cases hid : id = channelId
      · simp [hid]
      · simpa [hid] using hkept
  | other f => exact ⟨c.refCount, Nat.le_refl _, hslot⟩

/-- Only opening a name puts a channel in a free place. -/
theorem slot_event_of_none (hslot : k.slot channelId = none) {e : IpcEvent}
    (h : (e.apply k).slot channelId = some c) : c.refCount = 1 := by
  have hkept : ∀ {k' : Kernel}, k'.channels = k.channels → k'.slot channelId ≠ some c := by
    intro k' hsame
    simp [slot_congr hsame, hslot]
  have hcall : ∀ pid j (op : ChannelOp), (op.apply k pid j).slot channelId ≠ some c := by
    intro pid j op
    cases hj : k.slot j with
    | none => simp [ChannelOp.apply_of_none hj, hslot]
    | some d =>
      have hne : channelId ≠ j := by
        rintro rfl
        simp [hslot] at hj
      simp [(op.sets_apply hj pid).slot, hne, hslot]
  cases e with
  | opens pid name =>
    have hopens := opens_openChannel k name
    simp only [IpcEvent.apply] at h
    generalize (k.openChannel name).1 = id at hopens
    generalize (k.openChannel name).2 = k' at hopens h
    cases hopens with
    | refused => simp [hslot] at h
    | @known id d k' denotes named sets =>
      rw [sets.slot] at h
      split at h
      · rename_i hsame
        rw [← hsame, hslot] at denotes
        cases denotes
      · simp [hslot] at h
    | @fresh id k' free within unnamed sets =>
      rw [sets.slot] at h
      split at h
      · cases h
        rfl
      · simp [hslot] at h
  | call pid j op => exact absurd h (hcall pid j op)
  | exit cpu =>
    have hchannels := k.teardown_channels cpu
    cases haborted : k.abortedBy cpu with
    | none =>
      simp only [haborted] at hchannels
      exact absurd h (hkept hchannels)
    | some id =>
      simp only [haborted] at hchannels
      rw [IpcEvent.apply, slot_congr hchannels] at h
      exact absurd h (hcall 0 id .abort)
  | other f => exact absurd h (hkept rfl)

theorem ChannelOp.next_name {c' : Channel} (h : op.next pid c = some c') : c'.name = c.name := by
  by_cases hop : op = .close
  · subst hop
    simp only [ChannelOp.next] at h
    split at h
    · cases h
      rfl
    · split at h
      · cases h
        rfl
      · cases h
  · obtain ⟨d, hd, hname, -⟩ := ChannelOp.next_keeps hop pid c
    cases h.symm.trans hd
    exact hname

/-- Only the last close of a drained channel frees its place. -/
theorem ChannelOp.next_eq_none_iff :
    op.next pid c = none ↔ op = .close ∧ c.refCount ≤ 1 ∧ c.queue = [] := by
  by_cases hop : op = .close
  · subst hop
    simp only [ChannelOp.next, true_and]
    by_cases hmore : 1 < c.refCount
    · simp [hmore]
    · by_cases hqueue : c.queue = []
      · simpa [hmore, hqueue] using Nat.le_of_not_lt hmore
      · simp [hmore, hqueue]
  · obtain ⟨d, hd, -⟩ := ChannelOp.next_keeps hop pid c
    simp [hd, hop]

end Kernel

end KazuOS
