import KazuOS.Kernel.FdRuns
import KazuOS.Kernel.IpcCalls

/-! Samples on their way from a program to the audio driver. A write is cut into chunks, and each
chunk becomes one message behind a command byte. -/
namespace KazuOS.FileKernel

open Kernel

variable {s : FileKernel} {cpu fd bufPtr handle : Nat} {data : List UInt8} {c : Channel}

/-- A write to the audio device that nothing keeps from sending: the driver runs, and its channel
has room for a message. -/
structure CanPlay (s : FileKernel) (cpu fd bufPtr : Nat) (data : List UInt8) (c : Channel) :
    Prop where
  nonempty : data ≠ []
  buffer : bufPtr ≠ 0
  readable : s.validateRange cpu bufPtr data.length false = true
  device : ∃ handle, s.getFd (s.callerPid cpu) fd = some (.device handle)
  online : s.audioOnline = true
  channel : s.slot s.audioChannel = some c
  room : c.queue.length < maxQueue

/-- The call takes the first `n` bytes, at least one, and sends just these. -/
def Plays (s : FileKernel) (cpu fd bufPtr : Nat) (data : List UInt8) (c : Channel) : Prop :=
  ∃ n, 1 ≤ n ∧ (s.sysWrite cpu fd bufPtr data).1 = some n ∧
    ∃ (c' : Channel) (payloads : List (List UInt8)),
      (s.sysWrite cpu fd bufPtr data).2.slot s.audioChannel = some c' ∧
      c'.queue = c.queue ++ payloads.map (2 :: ·) ∧ payloads.flatten = data.take n

theorem sysWrite_device (h : s.CanPlay cpu fd bufPtr data c) :
    s.sysWrite cpu fd bufPtr data =
      (some (writeDevice data.length s.toKernel data).1,
        { s with toKernel := (writeDevice data.length s.toKernel data).2 }) := by
  obtain ⟨handle, hdevice⟩ := h.device
  unfold sysWrite
  rw [if_neg (by simp [h.buffer, h.nonempty]), h.readable, hdevice]
  rfl

/-- A chunk that is one message long. -/
theorem audioWrite_of_room {k : Kernel} (honline : k.audioOnline = true)
    (hchannel : k.slot k.audioChannel = some c) (hroom : c.queue.length < maxQueue)
    (hne : data ≠ []) (hshort : data.length ≤ 8191) :
    (k.audioWrite data).1 = data.length ∧ ∃ c',
      (k.audioWrite data).2.slot k.audioChannel = some c' ∧ c'.queue = c.queue ++ [2 :: data] := by
  have hsize : ¬maxMsgSize < (2 :: data).length := by
    rw [List.length_cons, maxMsgSize]
    omega
  have hsend : k.sendAudio 2 data = (.ok, k.enqueue k.audioChannel c (2 :: data)) := by
    rw [sendAudio, if_pos honline, trySendReliable, if_neg hsize, hchannel]
    exact if_neg (Nat.not_le.mpr hroom)
  have hwrite : k.audioWrite data = (data.length, k.enqueue k.audioChannel c (2 :: data)) := by
    rw [audioWrite, if_neg (by simp [hne, hshort]), hsend]
  rw [hwrite]
  have hslot := (sets_enqueue hchannel c.queue (2 :: data)).slot k.audioChannel
  rw [if_pos rfl] at hslot
  exact ⟨rfl, _, hslot, rfl⟩

theorem writeDevice_of_long {k : Kernel} (hlong : 8191 < data.length) (fuel : Nat) :
    writeDevice fuel k data = (0, k) := by
  have hchunk : 8191 < (data.take deviceChunk).length := by
    rw [List.length_take, deviceChunk]
    omega
  cases fuel with
  | zero => rfl
  | succ fuel =>
    have hne : data ≠ [] := List.ne_nil_of_length_pos (by omega)
    have hrefused : k.audioWrite (data.take deviceChunk) = (0, k) := if_pos (.inr hchunk)
    rw [writeDevice, if_neg hne]
    dsimp only
    rw [hrefused]
    rfl

/-- A chunk of the write has 8192 bytes, one more than the device takes at a time: longer buffers
are not played at all. -/
theorem audio_write_plays_iff (h : s.CanPlay cpu fd bufPtr data c) :
    s.Plays cpu fd bufPtr data c ↔ data.length ≤ 8191 := by
  unfold Plays
  rw [sysWrite_device h]
  constructor
  · rintro ⟨n, hn, hcount, -⟩
    by_contra hlong
    rw [writeDevice_of_long (by omega)] at hcount
    cases hcount
    exact Nat.not_succ_le_zero 0 hn
  · intro hshort
    obtain ⟨fuel, hfuel⟩ :=
      Nat.exists_eq_add_of_le' (List.length_pos_iff.mpr h.nonempty)
    have hchunk : data.take deviceChunk = data :=
      List.take_of_length_le (Nat.le_succ_of_le hshort)
    have hrest : data.drop deviceChunk = [] :=
      List.drop_eq_nil_of_le (Nat.le_succ_of_le hshort)
    obtain ⟨hwritten, c', hslot, hqueue⟩ :=
      audioWrite_of_room h.online h.channel h.room h.nonempty hshort
    have hdone : ∀ fuel k, writeDevice fuel k [] = (0, k) := by
      intro fuel k
      cases fuel <;> rfl
    have hall : writeDevice data.length s.toKernel data =
        (data.length, (s.audioWrite data).2) := by
      rw [hfuel, writeDevice, if_neg h.nonempty]
      dsimp only
      rw [hchunk, hrest]
      generalize s.toKernel.audioWrite data = result at hwritten ⊢
      obtain ⟨written, k⟩ := result
      obtain rfl : written = fuel + 1 := hwritten.trans hfuel
      change (if fuel + 1 < data.length then (fuel + 1, k)
        else (fuel + 1 + (writeDevice fuel k []).1, (writeDevice fuel k []).2)) = _
      rw [hfuel, if_neg (Nat.lt_irrefl _), hdone]
      rfl
    rw [hall]
    exact ⟨data.length, List.length_pos_iff.mpr h.nonempty, rfl, c', [data], hslot,
      hqueue, by simp⟩

/-- The device is open, and the driver waits for messages. -/
def audioBoot : FileKernel :=
  { smallBoot with
    tables := [none, some [.device audioHandle]]
    channels := [some ⟨[97], [], [], [], 1⟩]
    audioChannel := 1
    audioOnline := true }

theorem audio_write_plays_iff_fourBytes :
    audioBoot.Plays 0 0 0x8000000000 [1, 2, 3, 4] ⟨[97], [], [], [], 1⟩ :=
  (audio_write_plays_iff ⟨by decide, by decide, by decide, ⟨1, by decide⟩, rfl, rfl, by decide⟩).mpr
    (by decide)

/-- A buffer of two pages, with an empty queue. -/
theorem long_buffer_is_not_played :
    audioBoot.CanPlay 0 0 0x8000000000 (List.replicate 8192 0) ⟨[97], [], [], [], 1⟩ ∧
      (audioBoot.sysWrite 0 0 0x8000000000 (List.replicate 8192 0)).1 = some 0 := by
  have hlength : (List.replicate 8192 (0 : UInt8)).length = 8192 := List.length_replicate
  have hcan : audioBoot.CanPlay 0 0 0x8000000000 (List.replicate 8192 0) ⟨[97], [], [], [], 1⟩ := by
    refine ⟨List.ne_nil_of_length_pos (by omega), by decide, ?_, ⟨1, by decide⟩, rfl, rfl, by decide⟩
    rw [hlength]
    decide
  refine ⟨hcan, ?_⟩
  rw [sysWrite_device hcan, writeDevice_of_long (by omega)]

end KazuOS.FileKernel
