import KazuOS.Kernel.ChannelQueue
import KazuOS.Kernel.ChannelSlots
import KazuOS.Kernel.Wakers

/-! Whom a send wakes. A channel lists the processes that wait for a message; a send takes the
first off the list and wakes its main thread, if that is asleep on a channel. Signals, kills
and exits end a wait without touching the list. -/
namespace KazuOS.Kernel

open KazuOS.Task KazuOS.Lib

variable {k : Kernel} {channelId tid : Nat}

/-- A thread that is not ready becomes it. -/
def Readies (k k' : Kernel) (tid : Nat) : Prop :=
  ∃ t t', k.tasks.threads.lookup tid = some t ∧ t.state ≠ .ready ∧
    k'.tasks.threads.lookup tid = some t' ∧ t'.state = .ready

/-- The process a send takes off the list. -/
def firstReceiver (k : Kernel) (channelId : Nat) : Option Nat := (k.receivers channelId).head?

/-- What an accepted send does to threads. -/
theorem ChannelOp.tasks_of_accepted {op : ChannelOp} (h : op.accepted k channelId ≠ [])
    (pid : Nat) :
    (op.apply k pid channelId).tasks =
      match k.firstReceiver channelId with
      | some waiter => k.tasks.wakeupIpcWaiter waiter 0
      | none => k.tasks := by
  have henqueue : ∀ (c : Channel) (queue : List (List UInt8)) (data : List UInt8),
      k.slot channelId = some c → (k.enqueue channelId { c with queue } data).tasks =
        match k.firstReceiver channelId with
        | some waiter => k.tasks.wakeupIpcWaiter waiter 0
        | none => k.tasks := by
    intro c queue data hslot
    unfold enqueue firstReceiver
    rw [receivers_of_slot hslot]
    cases c.recvWaiters with
    | nil => rfl
    | cons waiter waiters => rfl
  cases op with
  | send data =>
    simp only [ChannelOp.apply, trySend]
    simp only [ChannelOp.accepted, trySend] at h
    split
    · rename_i hsize
      simp [hsize] at h
    · cases hslot : k.slot channelId with
      | none => simp [hslot] at h
      | some c => exact henqueue c _ data hslot
  | sendReliable data =>
    simp only [ChannelOp.apply, trySendReliable]
    simp only [ChannelOp.accepted, trySendReliable] at h
    split
    · rename_i hsize
      simp [hsize] at h
    · rename_i hsize
      cases hslot : k.slot channelId with
      | none => simp [hslot] at h
      | some c =>
        by_cases hfull : maxQueue ≤ c.queue.length
        · simp [hsize, hslot, hfull] at h
        · simp only [hfull, if_false]
          exact henqueue c c.queue data hslot
  | _ => exact absurd rfl h

/-- An accepted send readies the main thread of the process it takes off the list, if that
thread sleeps on a channel, and nobody else. -/
theorem readies_of_accepted_iff {op : ChannelOp} (h : op.accepted k channelId ≠ []) (pid : Nat) :
    Readies k (op.apply k pid channelId) tid ↔
      (∃ waiter, k.firstReceiver channelId = some waiter ∧ k.tasks.mainTid waiter = some tid) ∧
        sleepsOn k.tasks.threads Threads.isIpc tid = true := by
  have hsame : ∀ {k' : Kernel}, k'.tasks.threads.lookup tid = k.tasks.threads.lookup tid →
      ¬Readies k k' tid := by
    rintro k' heq ⟨t, t', ht, hnot, ht', hready⟩
    rw [heq, ht] at ht'
    cases ht'
    exact hnot hready
  have htasks := ChannelOp.tasks_of_accepted h pid
  cases hfirst : k.firstReceiver channelId with
  | none =>
    simp only [hfirst] at htasks
    exact iff_of_false (hsame (by rw [htasks])) (by simp)
  | some waiter =>
    simp only [hfirst] at htasks
    have hlookup := lookup_wakeupIpcWaiter k.tasks waiter 0 tid
    rw [← htasks] at hlookup
    by_cases hmain : k.tasks.mainTid waiter = some tid
    · rw [if_pos hmain] at hlookup
      have hfound : ∃ w, some waiter = some w ∧ k.tasks.mainTid w = some tid :=
        ⟨waiter, rfl, hmain⟩
      cases ht : k.tasks.threads.lookup tid with
      | none =>
        apply iff_of_false
        · rintro ⟨t, t', hnone, -⟩
          cases ht.symm.trans hnone
        · simp [sleepsOn, ht]
      | some t =>
        rw [ht, Option.map_some] at hlookup
        simp only [hfound, true_and, sleepsOn, ht]
        cases hwaits : t.waitsOn Threads.isIpc with
        | true =>
          have hsleeping : t.state = .sleeping := by
            simp only [Thread.waitsOn, Bool.and_eq_true, decide_eq_true_eq] at hwaits
            exact hwaits.1
          rw [hwaits, if_pos rfl] at hlookup
          exact iff_of_true ⟨t, _, ht, by simp [hsleeping], hlookup, rfl⟩ rfl
        | false =>
          rw [hwaits, if_neg (by simp), ← ht] at hlookup
          exact iff_of_false (hsame hlookup) (by simp)
    · rw [if_neg hmain] at hlookup
      apply iff_of_false (hsame hlookup)
      rintro ⟨⟨w, hw, hmain'⟩, -⟩
      cases hw
      exact hmain hmain'

namespace Receivers

/-- A thread asleep in SYS_IPC_RECV on a channel. -/
def Receives (s : Receivers) (tid channelId : Nat) : Prop :=
  ∃ name, s.waits tid = some (channelId, name)

/-- An accepted send on a channel readies one of the threads that receive on it, if there are
any, and no thread that waits on another channel. -/
def SendWakes (s : Receivers) (e : IpcEvent) : Prop :=
  ∀ pid channelId op, e = .call pid channelId op → op.accepted s.kernel channelId ≠ [] →
    ((∃ tid, s.Receives tid channelId) →
      ∃ tid, s.Receives tid channelId ∧ Readies s.kernel (e.apply s.kernel) tid) ∧
    ∀ tid other, asleepOn s.kernel tid other = true →
      Readies s.kernel (e.apply s.kernel) tid → other = channelId

/-- An accepted send finds the list of receivers up to date at its head: while anybody
receives on the channel, the main thread of the first process does, and that thread does
not wait on another channel. -/
def HeadCurrent (s : Receivers) (e : IpcEvent) : Prop :=
  ∀ pid channelId op, e = .call pid channelId op → op.accepted s.kernel channelId ≠ [] →
    ((∃ tid, s.Receives tid channelId) →
      ∃ waiter tid, s.kernel.firstReceiver channelId = some waiter ∧
        s.kernel.tasks.mainTid waiter = some tid ∧ s.Receives tid channelId) ∧
    ∀ waiter tid other, s.kernel.firstReceiver channelId = some waiter →
      s.kernel.tasks.mainTid waiter = some tid → asleepOn s.kernel tid other = true →
      other = channelId

theorem sleepsOn_of_asleepOn (h : asleepOn k tid channelId = true) :
    sleepsOn k.tasks.threads Threads.isIpc tid = true := by
  unfold asleepOn at h
  unfold sleepsOn
  cases ht : k.tasks.threads.lookup tid with
  | none => simp [ht] at h
  | some t =>
    simp only [ht, Bool.and_eq_true, decide_eq_true_eq] at h
    simp [Thread.waitsOn, h.1, h.2, Threads.isIpc]

theorem sendWakes_iff {s : Receivers} (ha : s.Asleep) (e : IpcEvent) :
    s.SendWakes e ↔ s.HeadCurrent e := by
  have hstep : ∀ pid channelId op, e = .call pid channelId op →
      op.accepted s.kernel channelId ≠ [] → ∀ tid, Readies s.kernel (e.apply s.kernel) tid ↔
        (∃ waiter, s.kernel.firstReceiver channelId = some waiter ∧
          s.kernel.tasks.mainTid waiter = some tid) ∧
          sleepsOn s.kernel.tasks.threads Threads.isIpc tid = true := by
    rintro pid channelId op rfl haccepted tid
    exact readies_of_accepted_iff haccepted pid
  constructor
  · intro h pid channelId op he haccepted
    obtain ⟨hwakes, hothers⟩ := h pid channelId op he haccepted
    refine ⟨?_, ?_⟩
    · intro hreceives
      obtain ⟨tid, htid, hready⟩ := hwakes hreceives
      obtain ⟨⟨waiter, hfirst, hmain⟩, -⟩ := (hstep pid channelId op he haccepted tid).mp hready
      exact ⟨waiter, tid, hfirst, hmain, htid⟩
    · intro waiter tid other hfirst hmain hasleep
      apply hothers tid other hasleep
      apply (hstep pid channelId op he haccepted tid).mpr
      exact ⟨⟨waiter, hfirst, hmain⟩, sleepsOn_of_asleepOn hasleep⟩
  · intro h pid channelId op he haccepted
    obtain ⟨hhead, hothers⟩ := h pid channelId op he haccepted
    refine ⟨?_, ?_⟩
    · intro hreceives
      obtain ⟨waiter, tid, hfirst, hmain, htid⟩ := hhead hreceives
      obtain ⟨name, hwaits⟩ := htid
      refine ⟨tid, ⟨name, hwaits⟩, (hstep pid channelId op he haccepted tid).mpr ?_⟩
      exact ⟨⟨waiter, hfirst, hmain⟩, sleepsOn_of_asleepOn (ha tid channelId name hwaits)⟩
    · intro tid other hasleep hready
      obtain ⟨⟨waiter, hfirst, hmain⟩, -⟩ := (hstep pid channelId op he haccepted tid).mp hready
      exact hothers waiter tid other hfirst hmain hasleep

end Receivers

/-- Throughout a run, every accepted send readies a thread that receives on its channel, if
there is one, and none that waits on another, exactly if every accepted send finds the list
of receivers up to date at its head. -/
theorem sends_wake_receivers_iff (k : Kernel) (es : List IpcEvent) :
    EachStep Receivers.next Receivers.SendWakes ⟨k, fun _ => none⟩ es ↔
      EachStep Receivers.next Receivers.HeadCurrent ⟨k, fun _ => none⟩ es := by
  apply eachStep_congr (I := Receivers.Asleep)
  · exact fun s e _ => s.next_asleep e
  · exact fun s e ha => Receivers.sendWakes_iff ha e
  · intro tid channelId name h
    cases h

/-- Two processes; the first catches SIGINT. It blocks in SYS_IPC_RECV and is interrupted,
then the second blocks in SYS_IPC_RECV on the same channel. -/
def interruptedReceiver : List IpcEvent :=
  [.other (·.onTasks fun ts => (ts.spawnUserProcess (some 135168) 0 0 0 .user 0 0).2),
    .other (·.onTasks (·.setReady 2)), .other (·.onTasks (·.signalSetCatch 1 true false)),
    .opens 1 [97], .call 1 1 (.recv 8), .other (·.onTasks (·.sendSigint 1)), .call 2 1 (.recv 8)]

/-- The message goes to the entry the first process left on the list, and the second process
sleeps on. -/
theorem send_wakes_nobody :
    ¬EachStep Receivers.next Receivers.SendWakes ⟨twoThreads, fun _ => none⟩
      (interruptedReceiver ++ [.call 1 1 (.send [1])]) := by
  rintro ⟨-, -, -, -, -, -, -, hsend, -⟩
  have haccepted : ∀ {k : Kernel}, (k.trySend 1 [1]).1 = .ok →
      (ChannelOp.send [1]).accepted k 1 ≠ [] := by
    intro k h
    simp [ChannelOp.accepted, h]
  obtain ⟨tid, ⟨name, hwaits⟩, hready⟩ :=
    (hsend 1 1 (.send [1]) rfl (haccepted rfl)).1 ⟨3, [97], rfl⟩
  obtain ⟨⟨waiter, hfirst, hmain⟩, -⟩ := (readies_of_accepted_iff (haccepted rfl) 1).mp hready
  cases hfirst
  cases hmain
  cases hwaits

end KazuOS.Kernel
