import Mathlib.Data.UInt

/-! The audio driver. Samples come in messages and go to a ring of four chunks, which the device
plays round and round; a message waits until there is a chunk free. -/
namespace KazuOS.Hda

def chunkFrames : Nat := 1200
def chunks : Nat := 4
def chunkBytes : Nat := chunkFrames * 4
def pcmBytes : Nat := chunkBytes * chunks

/-- A sample for the left and one for the right. -/
abbrev Frame := UInt16 × UInt16

structure State where
  channels : Nat
  written : Nat
  completed : Nat
  lastLpib : Nat
  wraps : Nat
  /-- The samples of the ring, left and right in turn. -/
  pcm : Nat → UInt16
  running : Bool

namespace State

/-- Look where the device plays. -/
def refresh (s : State) (lpib : Nat) : State :=
  let position := lpib % pcmBytes
  let wraps := if position < s.lastLpib then s.wraps + 1 else s.wraps
  { s with
    wraps
    lastLpib := position
    completed := (wraps * pcmBytes + position) / chunkBytes }

def inputChannels (s : State) : Nat := max 1 (min s.channels 2)

def frameBytes (s : State) : Nat := s.inputChannels * 2

end State

def sampleAt (data : List UInt8) (i : Nat) : UInt16 :=
  (data.getD i 0).toUInt16 ||| ((data.getD (i + 1) 0).toUInt16 <<< 8)

/-- A single channel goes to both sides. -/
def frameAt (inputChannels : Nat) (data : List UInt8) (frame : Nat) : Frame :=
  if inputChannels = 1 then (sampleAt data (frame * 2), sampleAt data (frame * 2))
  else (sampleAt data (frame * 4), sampleAt data (frame * 4 + 2))

/-- Copy frames to the ring one after another. -/
def copyFrames : Nat → List Frame → (Nat → UInt16) → Nat → UInt16
  | _, [], pcm => pcm
  | target, (left, right) :: rest, pcm =>
      copyFrames (target + 2) rest
        (Function.update (Function.update pcm target left) (target + 1) right)

def silence (count : Nat) : List Frame := List.replicate count (0, 0)

namespace State

def writePcm (s : State) (lpib : Nat) (data : List UInt8) : Nat × State :=
  let s := s.refresh lpib
  if chunks - 1 ≤ s.written - s.completed then (0, s) else
    let frames := min (data.length / s.frameBytes) chunkFrames
    let target := s.written % chunks * chunkFrames * 2
    let copied := (List.range frames).map (frameAt s.inputChannels data)
    let pcm := copyFrames target copied s.pcm
    (frames * s.frameBytes,
      { s with
        pcm := copyFrames (target + frames * 2) (silence (chunkFrames - frames)) pcm
        written := s.written + 1
        running := true })

def stop (s : State) : State :=
  { s with written := 0, completed := 0, lastLpib := 0, wraps := 0, running := false }

end State

/-- The loop over one message; no result when the rounds run out. Each round reads the position
of the device anew, and no signal arrives. -/
def pcmLoop (payload : List UInt8) : Nat → (Nat → Nat) → State → Option State
  | 0, _, _ => none
  | fuel + 1, readings, s =>
      let (taken, s) := s.writePcm (readings 0) payload
      if taken = 0 then pcmLoop payload fuel (fun i => readings (i + 1)) s else some s

/-- One message of `kdm_run`. -/
def handle (fuel : Nat) (readings : Nat → Nat) (s : State) : List UInt8 → Option State
  | [] => some s
  | command :: payload =>
      if command = 0 then some s.stop
      else if command = 1 then
        some { s with channels := (payload.head?.map fun c => max 1 (min c.toNat 2)).getD s.channels }
      else if command = 2 then pcmLoop payload fuel readings s
      else some s

theorem pcmLoop_succ (payload : List UInt8) (fuel : Nat) (readings : Nat → Nat) (s : State) :
    pcmLoop payload (fuel + 1) readings s =
      if (s.writePcm (readings 0) payload).1 = 0 then
        pcmLoop payload fuel (fun i => readings (i + 1)) (s.writePcm (readings 0) payload).2
      else some (s.writePcm (readings 0) payload).2 := by
  obtain ⟨⟨taken, s'⟩, hround⟩ : ∃ result, s.writePcm (readings 0) payload = result := ⟨_, rfl⟩
  rw [pcmLoop, hround]

theorem handle_pcm (fuel : Nat) (readings : Nat → Nat) (s : State) (payload : List UInt8) :
    handle fuel readings s (2 :: payload) = pcmLoop payload fuel readings s := rfl

theorem written_refresh (s : State) (lpib : Nat) : (s.refresh lpib).written = s.written := by
  unfold State.refresh
  rfl

theorem channels_refresh (s : State) (lpib : Nat) : (s.refresh lpib).channels = s.channels := by
  unfold State.refresh
  rfl

theorem pcm_refresh (s : State) (lpib : Nat) : (s.refresh lpib).pcm = s.pcm := by
  unfold State.refresh
  rfl

theorem inputChannels_refresh (s : State) (lpib : Nat) :
    (s.refresh lpib).inputChannels = s.inputChannels := by
  rw [State.inputChannels, channels_refresh, State.inputChannels]

theorem frameBytes_refresh (s : State) (lpib : Nat) :
    (s.refresh lpib).frameBytes = s.frameBytes := by
  rw [State.frameBytes, inputChannels_refresh, State.frameBytes]

/-! The ring. -/

theorem copyFrames_append (target : Nat) (first second : List Frame) (pcm : Nat → UInt16) :
    copyFrames target (first ++ second) pcm =
      copyFrames (target + first.length * 2) second (copyFrames target first pcm) := by
  induction first generalizing target pcm with
  | nil => rfl
  | cons frame first ih =>
    rw [List.cons_append, copyFrames, ih, copyFrames, List.length_cons, Nat.succ_mul,
      Nat.add_comm (first.length * 2), ← Nat.add_assoc]

variable {frames : List Frame}

theorem copyFrames_outside {target i : Nat} (h : i < target ∨ target + frames.length * 2 ≤ i)
    (pcm : Nat → UInt16) : copyFrames target frames pcm i = pcm i := by
  induction frames generalizing target pcm with
  | nil => rfl
  | cons frame frames ih =>
    rw [List.length_cons] at h
    rw [copyFrames, ih (by omega), Function.update_of_ne (by omega), Function.update_of_ne (by omega)]

theorem copyFrames_inside (target : Nat) (frames : List Frame) (pcm : Nat → UInt16) {j : Nat}
    {frame : Frame} (h : frames[j]? = some frame) :
    copyFrames target frames pcm (target + j * 2) = frame.1 ∧
      copyFrames target frames pcm (target + j * 2 + 1) = frame.2 := by
  induction frames generalizing target pcm j with
  | nil => cases h
  | cons first frames ih =>
    rw [copyFrames]
    cases j with
    | zero =>
      cases h
      simp only [Nat.zero_mul, Nat.add_zero]
      rw [copyFrames_outside (by omega), copyFrames_outside (by omega),
        Function.update_of_ne (by omega), Function.update_self, Function.update_self]
      exact ⟨rfl, rfl⟩
    | succ j =>
      have hrest := ih (target + 2)
        (Function.update (Function.update pcm target first.1) (target + 1) first.2) h
      have hshift : target + (j + 1) * 2 = target + 2 + j * 2 := by omega
      rw [hshift]
      exact hrest

/-- The frames of one chunk of the ring. -/
def chunkAt (pcm : Nat → UInt16) (chunk : Nat) : List Frame :=
  (List.range chunkFrames).map fun j =>
    (pcm (chunk * chunkFrames * 2 + j * 2), pcm (chunk * chunkFrames * 2 + j * 2 + 1))

theorem chunkAt_copyFrames (chunk : Nat) (pcm : Nat → UInt16) (h : frames.length = chunkFrames) :
    chunkAt (copyFrames (chunk * chunkFrames * 2) frames pcm) chunk = frames := by
  apply List.ext_getElem?
  intro j
  rw [chunkAt, List.getElem?_map]
  by_cases hj : j < chunkFrames
  · obtain ⟨frame, hframe⟩ : ∃ frame, frames[j]? = some frame :=
      ⟨_, List.getElem?_eq_getElem (h.symm ▸ hj)⟩
    obtain ⟨hleft, hright⟩ := copyFrames_inside (chunk * chunkFrames * 2) frames pcm hframe
    rw [List.getElem?_range hj, Option.map_some, hleft, hright, hframe]
  · rw [List.getElem?_eq_none (by simp; omega), List.getElem?_eq_none (by omega)]
    rfl

/-- The whole frames of a payload. -/
def wholeFrames (s : State) (payload : List UInt8) : List Frame :=
  (List.range (payload.length / s.frameBytes)).map (frameAt s.inputChannels payload)

/-- The next chunk has the frames and silence behind them; the others are as they were. -/
structure Receives (s s' : State) (frames : List Frame) : Prop where
  next : s'.written = s.written + 1
  chunk : chunkAt s'.pcm (s.written % chunks) =
    frames ++ silence (chunkFrames - frames.length)
  others : ∀ c < chunks, c ≠ s.written % chunks → chunkAt s'.pcm c = chunkAt s.pcm c

theorem chunkAt_other {chunk c : Nat} (hne : c ≠ chunk)
    (h : frames.length = chunkFrames) (pcm : Nat → UInt16) :
    chunkAt (copyFrames (chunk * chunkFrames * 2) frames pcm) c = chunkAt pcm c := by
  unfold chunkAt
  apply List.map_congr_left
  intro j hj
  have hlt := List.mem_range.mp hj
  unfold chunkFrames at hlt h ⊢
  rw [copyFrames_outside (by omega), copyFrames_outside (by omega)]

section Rounds

variable {s : State} {payload : List UInt8}

theorem frameBytes_pos (s : State) : 0 < s.frameBytes := by
  unfold State.frameBytes State.inputChannels
  omega

/-- A round finds the ring full, or fills a chunk with what fits into it. -/
theorem writePcm_cases (s : State) (lpib : Nat) (payload : List UInt8) :
    (chunks - 1 ≤ s.written - (s.refresh lpib).completed ∧
      s.writePcm lpib payload = (0, s.refresh lpib)) ∨
    (s.written - (s.refresh lpib).completed < chunks - 1 ∧
      (s.writePcm lpib payload).1 = min (payload.length / s.frameBytes) chunkFrames * s.frameBytes ∧
      (s.writePcm lpib payload).2.channels = s.channels ∧
      Receives s (s.writePcm lpib payload).2 ((wholeFrames s payload).take chunkFrames)) := by
  unfold State.writePcm
  dsimp only
  rw [written_refresh, channels_refresh, pcm_refresh, inputChannels_refresh, frameBytes_refresh]
  split
  · rename_i hfull
    exact .inl ⟨hfull, rfl⟩
  · rename_i hroom
    refine .inr ⟨Nat.lt_of_not_le hroom, rfl, rfl, ?_⟩
    have htake : (wholeFrames s payload).take chunkFrames =
        (List.range (min (payload.length / s.frameBytes) chunkFrames)).map
          (frameAt s.inputChannels payload) := by
      rw [wholeFrames, ← List.map_take, List.take_range, Nat.min_comm]
    generalize hcopied : (List.range (min (payload.length / s.frameBytes) chunkFrames)).map
      (frameAt s.inputChannels payload) = copied at htake
    have hlength : copied.length = min (payload.length / s.frameBytes) chunkFrames := by
      rw [← hcopied, List.length_map, List.length_range]
    have hwhole : (copied ++ silence (chunkFrames - copied.length)).length = chunkFrames := by
      rw [List.length_append, silence, List.length_replicate]
      omega
    have hpcm : ∀ target, copyFrames (target + min (payload.length / s.frameBytes) chunkFrames * 2)
        (silence (chunkFrames - min (payload.length / s.frameBytes) chunkFrames))
        (copyFrames target copied s.pcm) =
          copyFrames target (copied ++ silence (chunkFrames - copied.length)) s.pcm := by
      intro target
      rw [copyFrames_append, hlength]
    rw [htake]
    refine ⟨rfl, ?_, ?_⟩
    · refine Eq.trans ?_ (chunkAt_copyFrames (s.written % chunks) s.pcm hwhole)
      rw [← hpcm, ← hcopied]
    · intro c _ hc
      refine Eq.trans ?_ (chunkAt_other hc hwhole s.pcm)
      rw [← hpcm, ← hcopied]

/-- With a whole frame there is something to take. -/
theorem taken_pos (hframe : s.frameBytes ≤ payload.length) :
    min (payload.length / s.frameBytes) chunkFrames * s.frameBytes ≠ 0 := by
  have hpos := frameBytes_pos s
  have hdiv : 0 < payload.length / s.frameBytes := Nat.div_pos hframe hpos
  have hchunk : 0 < chunkFrames := by decide
  have hmin : 0 < min (payload.length / s.frameBytes) chunkFrames := Nat.lt_min.mpr ⟨hdiv, hchunk⟩
  exact Nat.ne_of_gt (Nat.mul_pos hmin hpos)

/-! Waiting for a chunk. -/

/-- The driver after some looks at the device. -/
def refreshed (s : State) (readings : Nat → Nat) : Nat → State
  | 0 => s
  | n + 1 => (refreshed s readings n).refresh (readings n)

/-- The position in all that has been played. -/
def State.position (s : State) : Nat := s.wraps * pcmBytes + s.lastLpib

/-- The device does not stop for good: the position seen changes again and again. -/
def Advances (readings : Nat → Nat) : Prop :=
  ∀ i, ∃ j, i < j ∧ readings j % pcmBytes ≠ readings i % pcmBytes

theorem completed_refresh (s : State) (lpib : Nat) :
    (s.refresh lpib).completed = (s.refresh lpib).position / chunkBytes := by
  unfold State.position State.refresh
  rfl

theorem lastLpib_refresh_lt (s : State) (lpib : Nat) : (s.refresh lpib).lastLpib < pcmBytes :=
  Nat.mod_lt lpib (by decide)

/-- The position never falls, and a change of the reading moves it. -/
theorem position_refresh (h : s.lastLpib < pcmBytes) (lpib : Nat) :
    s.position ≤ (s.refresh lpib).position ∧
      (lpib % pcmBytes ≠ s.lastLpib → s.position < (s.refresh lpib).position) := by
  have hlt : lpib % pcmBytes < pcmBytes := Nat.mod_lt lpib (by decide)
  unfold State.position State.refresh
  dsimp only
  split
  · rw [Nat.succ_mul]
    omega
  · omega

theorem position_mono (s : State) (readings : Nat → Nat) {n m : Nat} (h : n ≤ m) :
    (refreshed s readings (n + 1)).position ≤ (refreshed s readings (m + 1)).position := by
  induction m, h using Nat.le_induction with
  | base => exact Nat.le_refl _
  | succ m _ ih =>
    exact Nat.le_trans ih (position_refresh (lastLpib_refresh_lt _ _) _).1

variable {readings : Nat → Nat} {s' : State}

/-- However far the device has to play, it gets there. -/
theorem position_unbounded (s : State) (h : Advances readings)
    (bound : Nat) : ∃ n, bound ≤ (refreshed s readings (n + 1)).position := by
  induction bound with
  | zero => exact ⟨0, Nat.zero_le _⟩
  | succ bound ih =>
    obtain ⟨n, hn⟩ := ih
    obtain ⟨m, hlt, hchange⟩ := h n
    refine ⟨m, ?_⟩
    have hmono := position_mono s readings (Nat.le_of_lt hlt)
    by_contra hstuck
    -- the same position would mean the same reading
    have hreading : ∀ n, (refreshed s readings (n + 1)).position % pcmBytes =
        readings n % pcmBytes := by
      intro n
      have hlast : (refreshed s readings (n + 1)).lastLpib = readings n % pcmBytes := rfl
      rw [State.position, Nat.mul_comm, Nat.mul_add_mod, hlast, Nat.mod_mod]
    have hsame : (refreshed s readings (n + 1)).position =
        (refreshed s readings (m + 1)).position := by omega
    rw [← hreading, ← hreading, hsame] at hchange
    exact hchange rfl

theorem refreshed_shift (s : State) (readings : Nat → Nat) (n : Nat) :
    refreshed (s.refresh (readings 0)) (fun i => readings (i + 1)) n =
      refreshed s readings (n + 1) := by
  induction n with
  | zero => rfl
  | succ n ih =>
    rw [refreshed, ih]
    rfl

/-- The loop ends in the first round that finds a chunk free. -/
theorem pcmLoop_ends (hframe : s.frameBytes ≤ payload.length) (n : Nat)
    (hroom : s.written - (refreshed s readings (n + 1)).completed < chunks - 1) :
    ∃ s', pcmLoop payload (n + 1) readings s = some s' := by
  induction n generalizing s readings with
  | zero =>
    rw [pcmLoop_succ]
    obtain ⟨hfull, -⟩ | ⟨-, htaken, -⟩ := writePcm_cases s (readings 0) payload
    · exact absurd hroom (Nat.not_lt.mpr hfull)
    · exact ⟨_, if_neg (htaken ▸ taken_pos hframe)⟩
  | succ n ih =>
    rw [pcmLoop_succ]
    obtain ⟨-, hfull⟩ | ⟨-, htaken, -⟩ := writePcm_cases s (readings 0) payload
    · rw [hfull, if_pos rfl]
      apply ih
      · rwa [frameBytes_refresh]
      · rwa [refreshed_shift, written_refresh]
    · exact ⟨_, if_neg (htaken ▸ taken_pos hframe)⟩

/-- Without a whole frame nothing is ever taken. -/
theorem pcmLoop_never (hshort : payload.length < s.frameBytes) (fuel : Nat)
    (readings : Nat → Nat) : pcmLoop payload fuel readings s = none := by
  induction fuel generalizing s readings with
  | zero => rfl
  | succ fuel ih =>
    rw [pcmLoop_succ]
    obtain ⟨-, hfull⟩ | ⟨-, htaken, hchannels, -⟩ := writePcm_cases s (readings 0) payload
    · rw [hfull, if_pos rfl]
      apply ih
      rwa [frameBytes_refresh]
    · rw [Nat.div_eq_of_lt hshort, Nat.zero_min, Nat.zero_mul] at htaken
      rw [if_pos htaken]
      apply ih
      rwa [State.frameBytes, State.inputChannels, hchannels]

/-- While the device plays, a message ends just if it has a whole frame: the loop takes no answer
but a count of bytes for an end. -/
theorem message_ends_iff (s : State) (payload : List UInt8) {readings : Nat → Nat}
    (h : Advances readings) : (∃ fuel s', handle fuel readings s (2 :: payload) = some s') ↔
      s.frameBytes ≤ payload.length := by
  constructor
  · rintro ⟨fuel, s', hends⟩
    by_contra hshort
    rw [handle_pcm, pcmLoop_never (Nat.lt_of_not_le hshort)] at hends
    cases hends
  · intro hframe
    obtain ⟨n, hn⟩ := position_unbounded s h (s.written * chunkBytes)
    have hcompleted : s.written ≤ (refreshed s readings (n + 1)).completed := by
      have hdiv := Nat.div_le_div_right (c := chunkBytes) hn
      rwa [Nat.mul_div_cancel _ (by decide), refreshed, ← completed_refresh] at hdiv
    obtain ⟨s', hends⟩ := pcmLoop_ends hframe n (by
      rw [Nat.sub_eq_zero_of_le hcompleted]
      decide)
    exact ⟨n + 1, s', (handle_pcm _ _ _ _).trans hends⟩

/-- The driver as it starts. -/
def start : State := ⟨2, 0, 0, 0, 0, fun _ => 0, false⟩

theorem advances_id : Advances id :=
  fun i => ⟨i + 1, Nat.lt_succ_self i, fun h => absurd h (by
    unfold pcmBytes chunkBytes chunkFrames chunks
    dsimp only [id]
    omega)⟩

theorem message_ends_iff_oneFrame :
    ∃ fuel s', handle fuel id start [2, 1, 2, 3, 4] = some s' :=
  (message_ends_iff start [1, 2, 3, 4] advances_id).mpr (by decide)

/-- Two bytes for two channels, with a device that plays. -/
theorem half_frame_never_ends :
    Advances id ∧ ∀ fuel, handle fuel id start [2, 1, 2] = none :=
  ⟨advances_id, fun fuel => @pcmLoop_never start [1, 2] (by decide) fuel id⟩

/-! What is played. -/

theorem Receives.of_refresh {lpib : Nat} {frames : List Frame}
    (h : Receives (s.refresh lpib) s' frames) : Receives s s' frames := by
  obtain ⟨hnext, hchunk, hothers⟩ := h
  rw [written_refresh] at hnext hchunk hothers
  rw [pcm_refresh] at hothers
  exact ⟨hnext, hchunk, hothers⟩

/-- A message that ends has filled one chunk. -/
theorem pcmLoop_receives {fuel : Nat}
    (h : pcmLoop payload fuel readings s = some s') : s'.channels = s.channels ∧
      Receives s s' ((wholeFrames s payload).take chunkFrames) := by
  have hframe : s.frameBytes ≤ payload.length := by
    by_contra hshort
    cases (pcmLoop_never (Nat.lt_of_not_le hshort) fuel readings).symm.trans h
  induction fuel generalizing s readings with
  | zero => cases h
  | succ fuel ih =>
    rw [pcmLoop_succ] at h
    obtain ⟨-, hfull⟩ | ⟨-, htaken, hchannels, hreceives⟩ := writePcm_cases s (readings 0) payload
    · rw [hfull, if_pos rfl] at h
      obtain ⟨hchannels, hlater⟩ := ih h (by rwa [frameBytes_refresh])
      rw [channels_refresh] at hchannels
      rw [wholeFrames, frameBytes_refresh, inputChannels_refresh, ← wholeFrames] at hlater
      exact ⟨hchannels, hlater.of_refresh⟩
    · rw [if_neg (htaken ▸ taken_pos hframe)] at h
      cases h
      exact ⟨hchannels, hreceives⟩

theorem receives_whole_iff {frames : List Frame} (h : Receives s s' (frames.take chunkFrames)) :
    Receives s s' frames ↔ frames.length ≤ chunkFrames := by
  constructor
  · intro hwhole
    have hlength := congrArg List.length hwhole.chunk
    rw [chunkAt, List.length_map, List.length_range, List.length_append] at hlength
    omega
  · intro hshort
    rwa [List.take_of_length_le hshort] at h

end Rounds

/-- Messages that are handled one after another, with the state after each. -/
inductive Handled : State → List (List UInt8) → List State → Prop where
  | nil (s : State) : Handled s [] []
  | cons {s s' : State} {payload : List UInt8} {rest : List (List UInt8)} {states : List State}
      {fuel : Nat} {readings : Nat → Nat}
      (head : handle fuel readings s (2 :: payload) = some s') (tail : Handled s' rest states) :
      Handled s (payload :: rest) (s' :: states)

/-- Every message puts all its frames into the next chunk. -/
def AllCopied : State → List (List UInt8) → List State → Prop
  | s, payload :: rest, s' :: states =>
      Receives s s' (wholeFrames s payload) ∧ AllCopied s' rest states
  | _, _, _ => True

/-- A message fills one chunk and no more: frames beyond are lost. -/
theorem all_copied_iff {s : State} {payloads : List (List UInt8)} {states : List State}
    (run : Handled s payloads states) : AllCopied s payloads states ↔
      ∀ payload ∈ payloads, payload.length / s.frameBytes ≤ chunkFrames := by
  induction run with
  | nil s => exact iff_of_true trivial nofun
  | @cons s s' payload rest states fuel readings head tail ih =>
    obtain ⟨hchannels, hreceives⟩ := pcmLoop_receives head
    have hframe : s'.frameBytes = s.frameBytes := by
      rw [State.frameBytes, State.inputChannels, hchannels]
      rfl
    rw [AllCopied, receives_whole_iff hreceives, ih, hframe, List.forall_mem_cons, wholeFrames,
      List.length_map, List.length_range]

theorem all_copied_iff_twoFrames : ∃ s₁ s₂, Handled start [[1, 2, 3, 4], [5, 6, 7, 8]] [s₁, s₂] ∧
    AllCopied start [[1, 2, 3, 4], [5, 6, 7, 8]] [s₁, s₂] := by
  have hrun : Handled start [[1, 2, 3, 4], [5, 6, 7, 8]] [_, _] :=
    @Handled.cons start _ [1, 2, 3, 4] _ _ 1 id rfl
      (@Handled.cons _ _ [5, 6, 7, 8] _ _ 1 id rfl (.nil _))
  exact ⟨_, _, hrun, (all_copied_iff hrun).mpr (by decide)⟩

/-- A payload of 1201 frames. -/
theorem last_frame_is_lost : ∃ s', handle 1 id start (2 :: List.replicate 4804 1) = some s' ∧
    ¬Receives start s' (wholeFrames start (List.replicate 4804 1)) := by
  have hlength : (List.replicate 4804 (1 : UInt8)).length = 4804 := List.length_replicate
  have hframe : start.frameBytes ≤ (List.replicate 4804 (1 : UInt8)).length := by
    rw [hlength]
    decide
  have hroom : start.written - (refreshed start id 1).completed < chunks - 1 := by decide
  obtain ⟨s', hends⟩ := pcmLoop_ends hframe 0 hroom
  refine ⟨s', (handle_pcm 1 id start _).trans hends, fun h => ?_⟩
  have hshort := (receives_whole_iff (pcmLoop_receives hends).2).mp h
  rw [wholeFrames, List.length_map, List.length_range, hlength] at hshort
  revert hshort
  decide

end KazuOS.Hda
