import KazuOS.Kernel.IpcCalls
import KazuOS.Lib.Flow

/-! The messages of one channel, from its creation until its place is freed. Every message a
send accepted is received, displaced by a later one, cleared with the whole queue, or still
queued, and the order of the queue is the order of the sends. -/
namespace KazuOS.Kernel

open KazuOS.Task KazuOS.Lib

/-- What became of a message. -/
inductive Fate where
  | received (bufLen : Nat) (message : List UInt8)
  | displaced (message : List UInt8)
  | cleared (message : List UInt8)
  deriving DecidableEq, Repr

namespace Fate

def message : Fate → List UInt8
  | received _ message => message
  | displaced message => message
  | cleared message => message

/-- The message, if somebody received it. -/
def delivered : Fate → Option (List UInt8)
  | received _ message => some message
  | _ => none

/-- The bytes that reached the receiver's buffer. -/
def returned : Fate → Option (List UInt8)
  | received bufLen message => some (message.take bufLen)
  | _ => none

theorem sublist_delivered (fates : List Fate) :
    (fates.filterMap delivered).Sublist (fates.map message) := by
  induction fates with
  | nil => exact .slnil
  | cons fate fates ih =>
    cases fate with
    | received bufLen m => exact ih.cons_cons m
    | displaced m => exact ih.cons m
    | cleared m => exact ih.cons m

end Fate

namespace ChannelOp

/-- The messages that leave the queue with an operation. -/
def fates (c : Channel) : ChannelOp → List Fate
  | .send data =>
      if maxMsgSize < data.length ∨ c.queue.length < maxQueue then []
      else (c.queue.take 1).map .displaced
  | .recv bufLen | .recvNonblock bufLen => (c.queue.take 1).map (.received bufLen)
  | .abort => c.queue.map .cleared
  | .sendReliable _ | .waitSpace | .close => []

/-- The message of a send that returned Ok. -/
def accepted (k : Kernel) (channelId : Nat) : ChannelOp → List (List UInt8)
  | .send data => if (k.trySend channelId data).1 = .ok then [data] else []
  | .sendReliable data => if (k.trySendReliable channelId data).1 = .ok then [data] else []
  | _ => []

def okBytes : RecvResult → List (List UInt8)
  | .ok bytes => [bytes]
  | _ => []

/-- The bytes of a receive that returned Ok. -/
def returned (k : Kernel) (pid channelId : Nat) : ChannelOp → List (List UInt8)
  | .recv bufLen => okBytes (k.tryRecv channelId bufLen pid).1
  | .recvNonblock bufLen => okBytes (k.tryRecvNonblock channelId bufLen).1
  | _ => []

variable {k : Kernel} {pid channelId : Nat} {c c' : Channel}

/-- What was queued followed by what was accepted is what left followed by what is queued,
and the queue keeps its bound. -/
def Conserves (before accepted : List (List UInt8)) (fates : List Fate)
    (after : List (List UInt8)) : Prop :=
  Lib.Flow before accepted (fates.map Fate.message) after ∧ after.length ≤ maxQueue

variable {queue : List (List UInt8)} {bufLen : Nat}

theorem conserves_push (h : queue.length < maxQueue)
    (data : List UInt8) : Conserves queue [data] [] (queue ++ [data]) := by
  refine ⟨Lib.Flow.arrive queue [data], ?_⟩
  rw [List.length_append]
  exact h

/-- A full queue loses its oldest message to a new one. -/
theorem conserves_displace (h : queue.length = maxQueue) (data : List UInt8) :
    Conserves queue [data] ((queue.take 1).map .displaced) (queue.drop 1 ++ [data]) := by
  have hflow := (Lib.Flow.leave queue 1).trans (Lib.Flow.arrive (queue.drop 1) [data])
  refine ⟨by simpa [Fate.message, Function.comp_def] using hflow, ?_⟩
  have hpos : 0 < maxQueue := by decide
  simp only [List.length_append, List.length_drop, List.length_singleton]
  omega

variable {data : List UInt8}

theorem conserves_send (hslot : k.slot channelId = some c)
    (hroom : c.queue.length ≤ maxQueue) (hnext : (send data).next pid c = some c') :
    Conserves c.queue ((send data).accepted k channelId) ((send data).fates c) c'.queue := by
  simp only [ChannelOp.next] at hnext
  split at hnext
  · rename_i hsize
    cases hnext
    simpa [accepted, fates, trySend, hsize] using ⟨Lib.Flow.refl _, hroom⟩
  · rename_i hsize
    cases hnext
    by_cases hfull : c.queue.length < maxQueue
    · have hkept : c.queue.length + 1 - maxQueue = 0 := by omega
      simpa [accepted, fates, trySend, hsize, hslot, hfull, Channel.push, hkept] using
        conserves_push hfull data
    · have holdest : c.queue.length + 1 - maxQueue = 1 := by omega
      simpa [accepted, fates, trySend, hsize, hslot, hfull, Channel.push, holdest] using
        conserves_displace (by omega) data

theorem conserves_sendReliable (hslot : k.slot channelId = some c)
    (hroom : c.queue.length ≤ maxQueue) (hnext : (sendReliable data).next pid c = some c') :
    Conserves c.queue ((sendReliable data).accepted k channelId) ((sendReliable data).fates c)
      c'.queue := by
  simp only [ChannelOp.next] at hnext
  by_cases hsize : maxMsgSize < data.length
  · rw [if_pos (.inl hsize)] at hnext
    cases hnext
    simpa [accepted, fates, trySendReliable, hsize] using ⟨Lib.Flow.refl _, hroom⟩
  · by_cases hfull : maxQueue ≤ c.queue.length
    · rw [if_pos (.inr hfull)] at hnext
      cases hnext
      simpa [accepted, fates, trySendReliable, hsize, hslot, hfull] using ⟨Lib.Flow.refl _, hroom⟩
    · rw [if_neg (by simp [hsize, hfull])] at hnext
      cases hnext
      simpa [accepted, fates, trySendReliable, hsize, hslot, hfull, Channel.push] using
        conserves_push (Nat.lt_of_not_le hfull) data

/-- Both receives take the first message, if there is one. -/
theorem conserves_receive (hroom : c.queue.length ≤ maxQueue) (hqueue : c'.queue = c.queue.tail) :
    Conserves c.queue [] ((c.queue.take 1).map (Fate.received bufLen)) c'.queue := by
  have hflow := Lib.Flow.leave c.queue 1
  rw [List.drop_one] at hflow
  refine ⟨by simpa [hqueue, Fate.message, Function.comp_def] using hflow, ?_⟩
  rw [hqueue, List.length_tail]
  omega

theorem queue_of_recv (hnext : (recv bufLen).next pid c = some c') : c'.queue = c.queue.tail := by
  simp only [ChannelOp.next] at hnext
  split at hnext
  · cases hnext
    rfl
  · rename_i hempty
    rw [not_not] at hempty
    split at hnext <;> cases hnext <;> simp [hempty]

theorem queue_of_recvNonblock (hnext : (recvNonblock bufLen).next pid c = some c') :
    c'.queue = c.queue.tail := by
  simp only [ChannelOp.next] at hnext
  split at hnext
  · cases hnext
    rfl
  · rename_i hempty
    rw [not_not] at hempty
    cases hnext
    simp [hempty]

/-- An operation that leaves the queue as it is. -/
theorem conserves_self (hroom : c.queue.length ≤ maxQueue) (hqueue : c'.queue = c.queue) :
    Conserves c.queue [] [] c'.queue := by
  rw [hqueue]
  exact ⟨Lib.Flow.refl _, hroom⟩

theorem conserves {op : ChannelOp} (hslot : k.slot channelId = some c)
    (hroom : c.queue.length ≤ maxQueue) (hnext : op.next pid c = some c') :
    Conserves c.queue (op.accepted k channelId) (op.fates c) c'.queue := by
  cases op with
  | send data => exact conserves_send hslot hroom hnext
  | sendReliable data => exact conserves_sendReliable hslot hroom hnext
  | waitSpace =>
    simp only [ChannelOp.next] at hnext
    split at hnext <;> cases hnext <;> exact conserves_self hroom rfl
  | recv bufLen => exact conserves_receive hroom (queue_of_recv hnext)
  | recvNonblock bufLen => exact conserves_receive hroom (queue_of_recvNonblock hnext)
  | abort =>
    cases hnext
    simp [Conserves, accepted, fates, Lib.Flow, Fate.message, Function.comp_def]
  | close =>
    simp only [ChannelOp.next] at hnext
    split at hnext
    · cases hnext
      exact conserves_self hroom rfl
    · split at hnext
      · cases hnext
        exact conserves_self hroom rfl
      · cases hnext

/-- The bytes a receive returns are those of the message that left, as far as the buffer
goes. -/
theorem returned_eq (hslot : k.slot channelId = some c) (pid : Nat) (op : ChannelOp) :
    op.returned k pid channelId = (op.fates c).filterMap Fate.returned := by
  cases op with
  | send data =>
    simp only [returned, fates]
    split
    · rfl
    · rw [List.filterMap_map]
      exact (List.filterMap_eq_nil_iff.mpr fun _ _ => rfl).symm
  | recv bufLen =>
    cases hqueue : c.queue with
    | nil =>
      by_cases hpid : pid = 0 <;>
        simp [returned, fates, tryRecv, hslot, hqueue, hpid, okBytes]
    | cons message rest =>
      simp [returned, fates, tryRecv, hslot, hqueue, okBytes, Fate.returned]
  | recvNonblock bufLen =>
    cases hqueue : c.queue with
    | nil => simp [returned, fates, tryRecvNonblock, hslot, hqueue, okBytes]
    | cons message rest =>
      simp [returned, fates, tryRecvNonblock, hslot, hqueue, okBytes, Fate.returned]
  | abort =>
    rw [fates, List.filterMap_map]
    exact (List.filterMap_eq_nil_iff.mpr fun _ _ => rfl).symm
  | sendReliable data => rfl
  | waitSpace => rfl
  | close => rfl

end ChannelOp

/-! The life of a channel. -/

variable {k : Kernel} {channelId : Nat} {c : Channel}

/-- A channel's messages so far. -/
structure Life where
  kernel : Kernel
  sent : List (List UInt8)
  fates : List Fate
  returned : List (List UInt8)

/-- An event that the channel survives. -/
def Life.step (channelId : Nat) (s : Life) (e : IpcEvent) : Option Life :=
  match s.kernel.slot channelId, (e.apply s.kernel).slot channelId with
  | some c, some _ =>
      match e.opOn s.kernel channelId with
      | some (pid, op) =>
          some ⟨e.apply s.kernel, s.sent ++ op.accepted s.kernel channelId, s.fates ++ op.fates c,
            s.returned ++ op.returned s.kernel pid channelId⟩
      | none => some { s with kernel := e.apply s.kernel }
  | _, _ => none

/-- Nothing was lost or invented, and nothing changed places. -/
structure Conserved (channelId : Nat) (s : Life) (c : Channel) : Prop where
  slot : s.kernel.slot channelId = some c
  sent : s.sent = s.fates.map Fate.message ++ c.queue
  returned : s.returned = s.fates.filterMap Fate.returned
  room : c.queue.length ≤ maxQueue

variable {e : IpcEvent}

variable {op : ChannelOp} {s t : Life}

theorem Conserved.step (h : Conserved channelId s c)
    (hstep : s.step channelId e = some t) : ∃ c', Conserved channelId t c' := by
  have hevent := slot_event h.slot e
  simp only [Life.step, h.slot] at hstep
  cases hop : e.opOn s.kernel channelId with
  | none =>
    simp only [hop] at hevent hstep
    obtain ⟨refCount, -, hslot⟩ := hevent
    simp only [hslot] at hstep
    cases hstep
    exact ⟨_, hslot, h.sent, h.returned, h.room⟩
  | some call =>
    obtain ⟨pid, op⟩ := call
    simp only [hop] at hevent hstep
    cases hnext : op.next pid c with
    | none =>
      rw [hnext] at hevent
      simp only [hevent] at hstep
      cases hstep
    | some c' =>
      rw [hnext] at hevent
      simp only [hevent] at hstep
      cases hstep
      obtain ⟨hflow, hroom⟩ := ChannelOp.conserves h.slot h.room hnext
      refine ⟨c', hevent, ?_, ?_, hroom⟩
      · calc s.sent ++ op.accepted s.kernel channelId
            = s.fates.map Fate.message ++ (c.queue ++ op.accepted s.kernel channelId) := by
              rw [h.sent, List.append_assoc]
          _ = (s.fates ++ op.fates c).map Fate.message ++ c'.queue := by
              rw [hflow, List.map_append, List.append_assoc]
      · rw [h.returned, ChannelOp.returned_eq h.slot, List.filterMap_append]

/-- Operations that lose nothing: every one but the overwriting send and the abort. -/
def ChannelOp.lossless : ChannelOp → Bool
  | .send _ | .abort => false
  | .sendReliable _ | .waitSpace | .recv _ | .recvNonblock _ | .close => true

def IpcEvent.lossless (channelId : Nat) : IpcEvent → Bool
  | .call _ j op => j ≠ channelId || op.lossless
  | .exit _ => false
  | .opens _ _ | .other _ => true

theorem ChannelOp.fates_of_lossless (h : op.lossless = true) (c : Channel) :
    (op.fates c).filterMap Fate.delivered = (op.fates c).map Fate.message := by
  have hreceived : ∀ (bufLen : Nat) (queue : List (List UInt8)),
      (queue.map (Fate.received bufLen)).filterMap Fate.delivered =
        (queue.map (Fate.received bufLen)).map Fate.message := by
    intro bufLen queue
    simp [List.filterMap_map, Function.comp_def, Fate.delivered, Fate.message]
  cases op with
  | send data => cases h
  | abort => cases h
  | recv bufLen | recvNonblock bufLen => exact hreceived bufLen _
  | sendReliable data => rfl
  | waitSpace => rfl
  | close => rfl

theorem IpcEvent.lossless_opOn (he : e.lossless channelId = true) {pid : Nat}
    (hop : e.opOn k channelId = some (pid, op)) : op.lossless = true := by
  cases e with
  | opens pid name => cases hop
  | call pid j op =>
    simp only [IpcEvent.opOn, Option.ite_none_right_eq_some, Option.some.injEq,
      Prod.mk.injEq] at hop
    obtain ⟨rfl, rfl, rfl⟩ := hop
    simpa [IpcEvent.lossless] using he
  | exit cpu => cases he
  | other f => cases hop

theorem Life.step_of_lossless (he : e.lossless channelId = true)
    (hstep : s.step channelId e = some t)
    (h : s.fates.filterMap Fate.delivered = s.fates.map Fate.message) :
    t.fates.filterMap Fate.delivered = t.fates.map Fate.message := by
  unfold Life.step at hstep
  split at hstep
  · rename_i c c' hbefore hafter
    split at hstep
    · rename_i pid op hop
      cases hstep
      rw [List.filterMap_append, List.map_append, h,
        ChannelOp.fates_of_lossless (IpcEvent.lossless_opOn he hop)]
    · cases hstep
      exact h
  · cases hstep

/-- From its creation on, a channel is a queue of at most eight messages: what was sent is
what left it followed by what it holds. What left was received, in the order and as far as
the buffers went, or is the oldest message of a full queue, displaced by a send, or the
whole queue, cleared by an abort. With reliable sends only and no abort, what was received
and what is queued is what was sent. -/
theorem channel_is_lossy_queue (hslot : k.slot channelId = some c) (hnew : c.queue = [])
    {es : List IpcEvent} {s : Life}
    (run : Run (fun s e t => s.step channelId e = some t) ⟨k, [], [], []⟩ es s) :
    ∃ c', s.kernel.slot channelId = some c' ∧ s.sent = s.fates.map Fate.message ++ c'.queue ∧
      s.returned = s.fates.filterMap Fate.returned ∧
      (s.fates.filterMap Fate.delivered).Sublist s.sent ∧ c'.queue.length ≤ maxQueue ∧
      ((∀ e ∈ es, e.lossless channelId = true) →
        s.fates.filterMap Fate.delivered ++ c'.queue = s.sent) := by
  have hstart : ∃ c, Conserved channelId ⟨k, [], [], []⟩ c :=
    ⟨c, hslot, by simp [hnew], rfl, by simp [hnew]⟩
  obtain ⟨c', hs⟩ := run.preserves (I := fun s => ∃ c, Conserved channelId s c)
    (fun _ _ _ ⟨_, hs⟩ h => hs.step h) hstart
  refine ⟨c', hs.slot, hs.sent, hs.returned, ?_, hs.room, ?_⟩
  · rw [hs.sent]
    exact (Fate.sublist_delivered s.fates).trans (List.sublist_append_left _ _)
  · intro hlossless
    have hall := (run.restrict hlossless).preserves
      (fun _ _ _ hs h => Life.step_of_lossless h.2 h.1 hs) rfl
    rw [hall, hs.sent]

/-- Nine messages, one received, and a tenth. The ninth displaces the first. -/
def nineMessages : List IpcEvent :=
  ((List.range 9).map fun i => .call 1 1 (.send [UInt8.ofNat i, 7])) ++
    [.call 2 1 (.recv 1), .call 1 1 (.sendReliable [9])]

theorem channel_is_lossy_queue_nine :
    ∃ (s : Life) (c' : Channel), Run (fun s e t => Life.step 1 s e = some t)
        ⟨(twoThreads.openChannel [97]).2, [], [], []⟩ nineMessages s ∧
      s.fates = [.displaced [0, 7], .received 1 [1, 7]] ∧ s.kernel.slot 1 = some c' ∧
      s.sent = s.fates.map Fate.message ++ c'.queue ∧ c'.queue.length ≤ maxQueue := by
  have hrun : ∃ s, nineMessages.foldlM (Life.step 1)
      ⟨(twoThreads.openChannel [97]).2, [], [], []⟩ = some s ∧
      s.fates = [.displaced [0, 7], .received 1 [1, 7]] := ⟨_, rfl, rfl⟩
  obtain ⟨s, hrun, hfates⟩ := hrun
  have hslot : (twoThreads.openChannel [97]).2.slot 1 = some ⟨[97], [], [], [], 1⟩ := rfl
  obtain ⟨c', hslot', hsent, -, -, hroom, -⟩ :=
    channel_is_lossy_queue hslot rfl (Run.of_foldlM hrun)
  exact ⟨s, c', Run.of_foldlM hrun, hfates, hslot', hsent, hroom⟩

end KazuOS.Kernel
