import KazuOS.Lib.Utf8

/-! Text that programs print. It is copied in chunks, which may end within a character; the
bytes of that character are left for the next chunk. -/
namespace KazuOS.Kernel

open KazuOS.Lib

/-- What has been printed, chunk by chunk. -/
structure Consoles where
  screen : List (List UInt8)
  serial : List (List UInt8)
  deriving DecidableEq

def Consoles.print (doFb verbose : Bool) (out : Consoles) (chunk : List UInt8) : Consoles where
  screen := if doFb then out.screen ++ [chunk] else out.screen
  serial := if verbose then out.serial ++ [chunk] else out.serial

/-- The text at the start of a chunk, and how many of its bytes are done with. -/
def nextText (buf : List UInt8) : List UInt8 × Nat :=
  if IsUtf8 buf then (buf, buf.length)
  else
    match validUpTo buf with
    | 0 => ([], buf.length)
    | valid => (buf.take valid, valid)

/-- The loop of `print_user_bytes`: no result when the rounds run out. -/
def printLoop (src : List UInt8) (doFb verbose : Bool) : Nat → Nat → Consoles → Option Consoles
  | 0, _, _ => none
  | fuel + 1, offset, out =>
      if src.length ≤ offset then some out else
        let buf := (src.drop offset).take (min (src.length - offset) 256)
        let (chunk, consumed) := nextText buf
        printLoop src doFb verbose fuel (offset + consumed) (out.print doFb verbose chunk)

/-- A round takes at least a byte and prints a text. -/
theorem nextText_spec {buf : List UInt8} (hbuf : buf ≠ []) :
    0 < (nextText buf).2 ∧ IsUtf8 (nextText buf).1 := by
  have hlength := List.length_pos_iff.mpr hbuf
  unfold nextText
  split
  · rename_i htext
    exact ⟨hlength, htext⟩
  · split
    · exact ⟨hlength, isUtf8_nil⟩
    · rename_i valid hzero
      exact ⟨Nat.pos_of_ne_zero hzero, isUtf8_take_validUpTo buf⟩

/-- A chunk of a text holds a whole character at least, so that it is printed up to a place
between two characters. -/
theorem nextText_of_text {text : List UInt8} (h : IsUtf8 text) {n : Nat} (hn : 4 ≤ n) :
    (nextText (text.take n)).1 = text.take (nextText (text.take n)).2 ∧
      IsUtf8 (text.take (nextText (text.take n)).2) := by
  unfold nextText
  split
  · rename_i hchunk
    have hwhole : text.take (text.take n).length = text.take n := by
      rw [List.length_take, ← List.take_eq_take_min]
    exact ⟨hwhole.symm, hwhole.symm ▸ hchunk⟩
  · rename_i hchunk
    have hlong : n ≤ text.length := by
      by_contra hshort
      rw [List.take_of_length_le (Nat.le_of_not_le hshort)] at hchunk
      exact hchunk h
    obtain ⟨i, hi, hnear, htext⟩ := h.cut n
    have hle : i ≤ validUpTo (text.take n) := by
      apply le_validUpTo
      · rw [List.length_take]
        omega
      · rwa [List.take_take, Nat.min_eq_left hi]
    have hbound := validUpTo_le (text.take n)
    rw [List.length_take] at hbound
    have hvalid := isUtf8_take_validUpTo (text.take n)
    split
    · omega
    · rw [List.take_take, Nat.min_eq_left (by omega)] at hvalid ⊢
      exact ⟨rfl, hvalid⟩

/-- What the loop prints from an offset on. -/
theorem printLoop_prints (src : List UInt8) (doFb verbose : Bool) (offset : Nat) (out : Consoles) :
    ∃ chunks : List (List UInt8),
      (∀ fuel, src.length - offset < fuel → printLoop src doFb verbose fuel offset out =
        some (chunks.foldl (Consoles.print doFb verbose) out)) ∧
      (∀ chunk ∈ chunks, IsUtf8 chunk) ∧
      (IsUtf8 (src.drop offset) → chunks.flatten = src.drop offset) := by
  induction hrest : src.length - offset using Nat.strongRecOn generalizing offset out with
  | ind rest ih =>
    by_cases hend : src.length ≤ offset
    · refine ⟨[], ?_, nofun, fun _ => (List.drop_eq_nil_of_le hend).symm⟩
      intro fuel hfuel
      obtain ⟨fuel, rfl⟩ := Nat.exists_eq_add_of_lt hfuel
      rw [printLoop, if_pos hend]
      rfl
    have hbuf : (src.drop offset).take (min (src.length - offset) 256) =
        (src.drop offset).take 256 := by
      rw [← List.length_drop, Nat.min_comm, ← List.take_eq_take_min]
    have hne : (src.drop offset).take 256 ≠ [] := by
      simp [List.take_eq_nil_iff, hend]
    obtain ⟨hpos, htext⟩ := nextText_spec hne
    obtain ⟨chunks, hrun, hchunks, hflat⟩ :=
      ih _ (by omega) (offset + (nextText ((src.drop offset).take 256)).2)
        (out.print doFb verbose (nextText ((src.drop offset).take 256)).1) rfl
    refine ⟨(nextText ((src.drop offset).take 256)).1 :: chunks, ?_, ?_, ?_⟩
    · intro fuel hfuel
      obtain ⟨fuel, rfl⟩ := Nat.exists_eq_add_of_le' (show 1 ≤ fuel by omega)
      rw [printLoop, if_neg hend, hbuf]
      exact hrun fuel (by omega)
    · exact List.forall_mem_cons.mpr ⟨htext, hchunks⟩
    · intro hvalid
      obtain ⟨hchunk, hcut⟩ := nextText_of_text hvalid (show 4 ≤ 256 by decide)
      generalize (nextText ((src.drop offset).take 256)).2 = consumed at *
      have hwhole := List.take_append_drop consumed (src.drop offset)
      rw [List.drop_drop] at hwhole
      rw [List.flatten_cons, hflat (hcut.cancel (hwhole.symm ▸ hvalid)), hchunk, hwhole]

theorem foldl_print (doFb verbose : Bool) (chunks : List (List UInt8)) (out : Consoles) :
    chunks.foldl (Consoles.print doFb verbose) out =
      ⟨out.screen ++ if doFb then chunks else [], out.serial ++ if verbose then chunks else []⟩ := by
  induction chunks generalizing out with
  | nil => simp
  | cons chunk chunks ih =>
    rw [List.foldl_cons, ih, Consoles.print]
    cases doFb <;> cases verbose <;> simp

/-- `print_user_bytes` ends on all bytes; what it prints is text, and for a text it is the whole
of it. -/
theorem print_user_bytes_whole (src : List UInt8) (doFb verbose : Bool) (out : Consoles) :
    ∃ chunks : List (List UInt8),
      (∀ fuel, src.length < fuel → printLoop src doFb verbose fuel 0 out =
        some ⟨out.screen ++ if doFb then chunks else [],
          out.serial ++ if verbose then chunks else []⟩) ∧
      (∀ chunk ∈ chunks, IsUtf8 chunk) ∧ (IsUtf8 src → chunks.flatten = src) := by
  obtain ⟨chunks, hrun, hchunks, hflat⟩ := printLoop_prints src doFb verbose 0 out
  rw [foldl_print] at hrun
  exact ⟨chunks, hrun, hchunks, hflat⟩

end KazuOS.Kernel
