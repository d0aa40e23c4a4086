import KazuOS.Kernel.IpcCalls

/-! When a channel's place is given up. Closing is the only way, and it looks at the count and
the queue of that moment: not at who sleeps on the channel, and not again when the queue of
an unreferenced channel runs dry. -/
namespace KazuOS.Kernel

open KazuOS.Task KazuOS.Lib

variable {k : Kernel} {channelId : Nat} {c c' : Channel}

def afterEvent (k : Kernel) (e : IpcEvent) : Kernel := e.apply k

/-! Places that nobody can use. -/

/-- Every channel has a reference or a message left. -/
def InUse (k : Kernel) : Prop :=
  ∀ channelId c, k.slot channelId = some c → 0 < c.refCount ∨ c.queue ≠ []

/-- The operation takes the last message away from a channel without references. -/
def ChannelOp.strands (c : Channel) : ChannelOp → Bool
  | .recv _ | .recvNonblock _ => c.refCount = 0 && c.queue.length = 1
  | .abort => c.refCount = 0
  | .send _ | .sendReliable _ | .waitSpace | .close => false

/-- No channel is stranded by the event. -/
def Leaves (k : Kernel) (e : IpcEvent) : Prop :=
  ∀ channelId c pid op, k.slot channelId = some c → e.opOn k channelId = some (pid, op) →
    op.strands c = false

theorem inUse_pop_iff (hqueue : c.queue ≠ []) :
    (0 < c.pop.refCount ∨ c.pop.queue ≠ []) ↔ ¬(c.refCount = 0 ∧ c.queue.length = 1) := by
  have hlength : 0 < c.queue.length := List.length_pos_iff.mpr hqueue
  have htail : c.queue.tail ≠ [] ↔ c.queue.length ≠ 1 := by
    rw [← List.length_pos_iff, List.length_tail]
    omega
  simp only [Channel.pop, htail]
  omega

/-- A receive strands a channel exactly if it takes the last message of one without
references. -/
theorem inUse_receive_iff (hc : 0 < c.refCount ∨ c.queue ≠ [])
    (htaken : c.queue ≠ [] → c' = c.pop) (hkept : c.queue = [] → c'.refCount = c.refCount) :
    (0 < c'.refCount ∨ c'.queue ≠ []) ↔ (c.refCount = 0 && c.queue.length = 1) = false := by
  simp only [Bool.and_eq_false_iff, decide_eq_false_iff_not]
  by_cases hqueue : c.queue = []
  · have hrefs : 0 < c.refCount := hc.resolve_right (by simp [hqueue])
    simp [hkept hqueue, hrefs, hrefs.ne']
  · rw [htaken hqueue, inUse_pop_iff hqueue]
    tauto

variable {name : List UInt8} {op : ChannelOp} {pid : Nat}

theorem ChannelOp.next_inUse_iff
    (hc : 0 < c.refCount ∨ c.queue ≠ []) (hnext : op.next pid c = some c') :
    (0 < c'.refCount ∨ c'.queue ≠ []) ↔ op.strands c = false := by
  cases op with
  | send data | sendReliable data =>
    apply iff_of_true _ rfl
    simp only [ChannelOp.next] at hnext
    split at hnext
    · cases hnext
      exact hc
    · cases hnext
      simp [Channel.push]
  | waitSpace =>
    apply iff_of_true _ rfl
    simp only [ChannelOp.next] at hnext
    split at hnext <;> cases hnext <;> exact hc
  | recv bufLen | recvNonblock bufLen =>
    simp only [ChannelOp.next] at hnext
    apply inUse_receive_iff hc
    · intro hqueue
      rw [if_pos hqueue] at hnext
      exact (Option.some.inj hnext).symm
    · intro hqueue
      rw [if_neg (by simp [hqueue])] at hnext
      repeat' split at hnext
      all_goals
        cases hnext
        rfl
  | abort =>
    cases hnext
    simp [ChannelOp.strands, Nat.pos_iff_ne_zero]
  | close =>
    apply iff_of_true _ rfl
    simp only [ChannelOp.next] at hnext
    split at hnext
    · rename_i hmore
      cases hnext
      exact .inl (Nat.sub_pos_of_lt hmore)
    · split at hnext
      · rename_i hqueue
        cases hnext
        exact .inr hqueue
      · cases hnext

theorem afterEvent_inUse_iff (hk : k.InUse) (e : IpcEvent) :
    (afterEvent k e).InUse ↔ k.Leaves e := by
  constructor
  · intro hafter channelId c pid op hslot hop
    have hevent := slot_event hslot e
    simp only [hop] at hevent
    cases hnext : op.next pid c with
    | none =>
      obtain ⟨rfl, -⟩ := ChannelOp.next_eq_none_iff.mp hnext
      rfl
    | some c' =>
      rw [hnext] at hevent
      exact (ChannelOp.next_inUse_iff (hk channelId c hslot) hnext).mp (hafter channelId c' hevent)
  · intro hleaves channelId c' hafter
    cases hslot : k.slot channelId with
    | none =>
      apply Or.inl
      rw [slot_event_of_none hslot hafter]
      exact Nat.one_pos
    | some c =>
      have hevent := slot_event hslot e
      cases hop : e.opOn k channelId with
      | none =>
        simp only [hop] at hevent
        obtain ⟨refCount, hmore, hkept⟩ := hevent
        cases hafter.symm.trans hkept
        exact (hk channelId c hslot).imp_left fun h => Nat.lt_of_lt_of_le h hmore
      | some call =>
        simp only [hop] at hevent
        have hnext := hevent.symm.trans hafter
        exact (ChannelOp.next_inUse_iff (hk channelId c hslot) hnext).mpr
          (hleaves channelId c _ _ hslot hop)

theorem inUse_of_empty (h : k.channels = []) : k.InUse := by
  intro channelId c hslot
  simp [slot, h] at hslot

/-- A place of the channel table is occupied only while its channel has a reference or a
message, throughout a run, exactly if no receive in it takes the last message, and no abort
or exit of the audio driver all messages, of a channel without references. -/
theorem channels_in_use_iff (hboot : k.channels = []) (es : List IpcEvent) :
    Always afterEvent InUse k es ↔ EachStep afterEvent Leaves k es := by
  apply always_iff_eachStep (I := fun _ => True)
  · exact fun _ _ _ => trivial
  · exact fun _ e _ hk => afterEvent_inUse_iff hk e
  · trivial
  · exact inUse_of_empty hboot

theorem leaves_opens (k : Kernel) (pid : Nat) (name : List UInt8) : k.Leaves (.opens pid name) := by
  intro channelId c pid' op _ hop
  cases hop

theorem leaves_call (pid : Nat) (hslot : k.slot channelId = some c)
    (hop : op.strands c = false) : k.Leaves (.call pid channelId op) := by
  intro j d pid' op' hd hop'
  simp only [IpcEvent.opOn, Option.ite_none_right_eq_some, Option.some.injEq, Prod.mk.injEq] at hop'
  obtain ⟨rfl, -, rfl⟩ := hop'
  cases hslot.symm.trans hd
  exact hop

/-- The sender closes the channel before its message is received; the receiver opens it
again, and its own close frees the place. -/
theorem channels_in_use_iff_reopened :
    Always afterEvent InUse twoThreads [.opens 1 [97], .call 1 1 (.send [1]), .call 1 1 .close,
      .opens 2 [97], .call 2 1 (.recv 8), .call 2 1 .close] :=
  (channels_in_use_iff rfl _).mpr
    ⟨leaves_opens _ _ _, leaves_call 1 rfl rfl, leaves_call 1 rfl rfl, leaves_opens _ _ _,
      leaves_call 2 rfl rfl, leaves_call 2 rfl rfl, trivial⟩

/-- The message is received by the id alone, without opening the channel again: the place
stays occupied without a reference or a message. -/
theorem drained_channel_keeps_its_place :
    ¬Always afterEvent InUse twoThreads [.opens 1 [97], .call 1 1 (.send [1]), .call 1 1 .close,
      .call 2 1 (.recv 8)] := by
  rintro ⟨-, -, -, -, hlast⟩
  have hslot : ∃ c, (afterEvent (afterEvent (afterEvent (afterEvent twoThreads (.opens 1 [97]))
      (.call 1 1 (.send [1]))) (.call 1 1 .close)) (.call 2 1 (.recv 8))).slot 1 = some c ∧
      c.refCount = 0 ∧ c.queue = [] := ⟨_, rfl, rfl, rfl⟩
  obtain ⟨c, hslot, hrefs, hqueue⟩ := hslot
  have huse := hlast 1 c hslot
  simp [hrefs, hqueue] at huse

/-! Places given up under a sleeping receiver. -/

/-- A thread asleep on a channel id. -/
def asleepOn (k : Kernel) (tid channelId : Nat) : Bool :=
  match k.tasks.threads.lookup tid with
  | some t => t.state = .sleeping && t.waitTarget = .ipc channelId
  | none => false

/-- The kernel, and the threads asleep in SYS_IPC_RECV with the id they gave and the name it
stood for. -/
structure Receivers where
  kernel : Kernel
  waits : Nat → Option (Nat × List UInt8)

/-- The thread a receive puts to sleep: the main thread of its process. -/
def IpcEvent.blockedIn (k : Kernel) (tid : Nat) : IpcEvent → Option (Nat × List UInt8)
  | .call pid channelId (.recv bufLen) =>
      if (k.tryRecv channelId bufLen pid).1 = .block ∧ k.tasks.mainTid pid = some tid then
        (k.slot channelId).map fun c => (channelId, c.name)
      else none
  | _ => none

/-- Who sleeps in SYS_IPC_RECV after an event: whom it has put to sleep, and everyone who did
before and still sleeps there. -/
def Receivers.next (s : Receivers) (e : IpcEvent) : Receivers where
  kernel := e.apply s.kernel
  waits tid :=
    match (e.blockedIn s.kernel tid).or (s.waits tid) with
    | some (channelId, name) =>
        if asleepOn (e.apply s.kernel) tid channelId then some (channelId, name) else none
    | none => none

/-- Whoever sleeps in SYS_IPC_RECV sleeps on a channel that is still the one it asked for. -/
def Receivers.Kept (s : Receivers) : Prop :=
  ∀ tid channelId name, s.waits tid = some (channelId, name) →
    ∃ c, s.kernel.slot channelId = some c ∧ c.name = name

/-- A close of a channel on which somebody sleeps finds another reference or a message. -/
def Receivers.Spares (s : Receivers) (e : IpcEvent) : Prop :=
  ∀ tid channelId name c pid, s.waits tid = some (channelId, name) →
    s.kernel.slot channelId = some c → e.opOn s.kernel channelId = some (pid, .close) →
    1 < c.refCount ∨ c.queue ≠ []

/-- The record of receivers is that of threads asleep. -/
def Receivers.Asleep (s : Receivers) : Prop :=
  ∀ tid channelId name, s.waits tid = some (channelId, name) →
    asleepOn s.kernel tid channelId = true

variable {e : IpcEvent} {s : Receivers}

theorem Receivers.next_waits {tid channelId : Nat}
    (h : (s.next e).waits tid = some (channelId, name)) :
    asleepOn (e.apply s.kernel) tid channelId = true ∧
      (e.blockedIn s.kernel tid = some (channelId, name) ∨
        s.waits tid = some (channelId, name)) := by
  simp only [Receivers.next] at h
  split at h
  · rename_i j n hor
    simp only [Option.ite_none_right_eq_some, Option.some.injEq, Prod.mk.injEq] at h
    obtain ⟨hasleep, rfl, rfl⟩ := h
    exact ⟨hasleep, Option.or_eq_some_iff.mp hor |>.imp_right And.right⟩
  · cases h

theorem Receivers.next_asleep (s : Receivers) (e : IpcEvent) : (s.next e).Asleep := by
  intro tid channelId name h
  exact (Receivers.next_waits h).1

/-- A receive that blocks names the channel it blocks on, and leaves it there. -/
theorem slot_of_blockedIn {tid : Nat} (h : e.blockedIn k tid = some (channelId, name)) :
    ∃ c, (e.apply k).slot channelId = some c ∧ c.name = name := by
  cases e with
  | call pid j op =>
    cases op with
    | recv bufLen =>
      simp only [IpcEvent.blockedIn, Option.ite_none_right_eq_some, Option.map_eq_some_iff,
        Prod.mk.injEq] at h
      obtain ⟨-, c, hslot, rfl, rfl⟩ := h
      have hop : ChannelOp.recv bufLen ≠ .close := by simp
      obtain ⟨c', hnext, hname, -⟩ := ChannelOp.next_keeps hop pid c
      refine ⟨c', ?_, hname⟩
      rw [IpcEvent.apply, slot_call hslot, if_pos rfl, hnext]
    | _ => cases h
  | _ => cases h

theorem closeChannel_tasks (k : Kernel) (channelId : Nat) :
    (k.closeChannel channelId).tasks = k.tasks := by
  unfold closeChannel
  split
  · rfl
  · split
    · rfl
    · split
      · rfl
      · rfl

theorem Receivers.next_kept_of_spares (hk : s.Kept) (h : s.Spares e) : (s.next e).Kept := by
  intro tid channelId name hwaits
  obtain ⟨-, hblocked | hbefore⟩ := Receivers.next_waits hwaits
  · exact slot_of_blockedIn hblocked
  · obtain ⟨c, hslot, hname⟩ := hk tid channelId name hbefore
    have hevent := slot_event hslot e
    cases hop : e.opOn s.kernel channelId with
    | none =>
      simp only [hop] at hevent
      obtain ⟨refCount, -, hkept⟩ := hevent
      exact ⟨_, hkept, hname⟩
    | some call =>
      obtain ⟨pid, op⟩ := call
      simp only [hop] at hevent
      cases hnext : op.next pid c with
      | none =>
        obtain ⟨rfl, hrefs, hqueue⟩ := ChannelOp.next_eq_none_iff.mp hnext
        obtain hmore | hmessage := h tid channelId name c pid hbefore hslot hop
        · exact absurd hmore (Nat.not_lt.mpr hrefs)
        · exact absurd hqueue hmessage
      | some c' => exact ⟨c', hevent.trans hnext, (ChannelOp.next_name hnext).trans hname⟩

theorem IpcEvent.eq_close
    (h : e.opOn k channelId = some (pid, .close)) : e = .call pid channelId .close := by
  cases e with
  | call pid' j op =>
    simp only [IpcEvent.opOn, Option.ite_none_right_eq_some, Option.some.injEq,
      Prod.mk.injEq] at h
    obtain ⟨rfl, rfl, rfl⟩ := h
    rfl
  | exit cpu =>
    simp only [IpcEvent.opOn, Option.ite_none_right_eq_some, Option.some.injEq,
      Prod.mk.injEq] at h
    simp at h
  | opens pid name => cases h
  | other f => cases h

theorem Receivers.spares_of_next_kept (ha : s.Asleep) (h : (s.next e).Kept) : s.Spares e := by
  intro tid channelId name c pid hwaits hslot hop
  obtain rfl := IpcEvent.eq_close hop
  by_contra hlast
  rw [not_or, Nat.not_lt, not_not] at hlast
  -- the place is freed, and the sleeper sleeps on
  have hfreed : ((IpcEvent.call pid channelId .close).apply s.kernel).slot channelId = none := by
    rw [IpcEvent.apply, slot_call hslot, if_pos rfl]
    exact ChannelOp.next_eq_none_iff.mpr ⟨rfl, hlast⟩
  have hasleep : asleepOn ((IpcEvent.call pid channelId .close).apply s.kernel) tid channelId =
      true := by
    simpa only [asleepOn, IpcEvent.apply, ChannelOp.apply, closeChannel_tasks] using
      ha tid channelId name hwaits
  have hstill : (s.next (.call pid channelId .close)).waits tid = some (channelId, name) := by
    simp only [Receivers.next, IpcEvent.blockedIn, Option.none_or, hwaits, hasleep, if_true]
  obtain ⟨c', hslot', -⟩ := h tid channelId name hstill
  cases hfreed.symm.trans hslot'

/-- No channel is freed or renamed under a thread that sleeps in SYS_IPC_RECV on it,
throughout a run, exactly if every close of a channel on which somebody sleeps finds another
reference to the channel or a message in it. -/
theorem receivers_keep_their_channel_iff (k : Kernel) (es : List IpcEvent) :
    Always Receivers.next Receivers.Kept ⟨k, fun _ => none⟩ es ↔
      EachStep Receivers.next Receivers.Spares ⟨k, fun _ => none⟩ es := by
  apply always_iff_eachStep (I := Receivers.Asleep)
  · exact fun s e _ => s.next_asleep e
  · exact fun s e ha hk =>
      ⟨Receivers.spares_of_next_kept ha, Receivers.next_kept_of_spares hk⟩
  · intro tid channelId name h
    cases h
  · intro tid channelId name h
    cases h

/-- The main thread sleeps in SYS_IPC_RECV when another thread of its process closes the
channel. -/
theorem closed_under_receiver :
    ¬Always Receivers.next Receivers.Kept ⟨twoThreads, fun _ => none⟩
      [.opens 1 [97], .call 1 1 (.recv 8), .call 1 1 .close] := by
  rintro ⟨-, -, -, hlast⟩
  obtain ⟨c, hslot, -⟩ := hlast 1 1 [97] rfl
  cases hslot

end KazuOS.Kernel
