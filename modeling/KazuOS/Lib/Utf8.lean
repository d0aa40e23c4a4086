import Mathlib.Data.UInt

/-! Text as UTF-8 bytes. An ASCII byte is a character of its own, so a text may be cut on
either side of one; elsewhere a cut has to fall between two characters. -/
namespace KazuOS.Lib

def IsUtf8 (bytes : List UInt8) : Prop := ∃ cs : List Char, bytes = cs.flatMap String.utf8EncodeChar

/-- The bytes within a character, after its first. -/
def continuation (b : UInt8) : Bool := 128 ≤ b && b < 192

/-- A cut before byte `i` falls between two characters. -/
def isCharBoundary (bytes : List UInt8) (i : Nat) : Bool :=
  if i = 0 then true
  else match bytes[i]? with
    | none => i = bytes.length
    | some b => !continuation b

theorem isUtf8_iff_validate (bytes : List UInt8) :
    IsUtf8 bytes ↔ (ByteArray.mk bytes.toArray).validateUTF8 = true := by
  rw [ByteArray.validateUTF8_eq_true_iff]
  constructor
  · rintro ⟨cs, rfl⟩
    exact ⟨cs, ByteArray.ext (by simp [List.utf8Encode])⟩
  · rintro ⟨cs, hcs⟩
    refine ⟨cs, ?_⟩
    have hdata := congrArg (fun b => b.data.toList) hcs
    simpa [List.utf8Encode] using hdata

instance (bytes : List UInt8) : Decidable (IsUtf8 bytes) :=
  decidable_of_iff _ (isUtf8_iff_validate bytes).symm

theorem isUtf8_nil : IsUtf8 [] := ⟨[], rfl⟩

theorem IsUtf8.append {a b : List UInt8} (ha : IsUtf8 a) (hb : IsUtf8 b) : IsUtf8 (a ++ b) := by
  obtain ⟨cs, rfl⟩ := ha
  obtain ⟨ds, rfl⟩ := hb
  exact ⟨cs ++ ds, List.flatMap_append.symm⟩

/-- What follows a text in a text is a text: no character begins with another. -/
theorem IsUtf8.cancel {a b : List UInt8} (ha : IsUtf8 a) (h : IsUtf8 (a ++ b)) : IsUtf8 b := by
  obtain ⟨cs, rfl⟩ := ha
  obtain ⟨ds, hds⟩ := h
  have hencode : cs.utf8Encode ++ ByteArray.mk b.toArray = ds.utf8Encode := by
    apply ByteArray.ext
    apply Array.toList_inj.mp
    simpa [List.utf8Encode] using hds
  obtain ⟨es, rfl⟩ := List.isPrefix_of_utf8Encode_append_eq_utf8Encode _ hencode
  rw [List.flatMap_append, List.append_cancel_left_eq] at hds
  exact ⟨es, hds⟩

variable {bytes : List UInt8} {before after : List UInt8} {b : UInt8}

/-- A cut after `n` bytes is less than a character away from one between two characters. -/
theorem IsUtf8.cut (h : IsUtf8 bytes) (n : Nat) : ∃ i ≤ n, n < i + 4 ∧ IsUtf8 (bytes.take i) := by
  obtain ⟨cs, rfl⟩ := h
  induction cs generalizing n with
  | nil => exact ⟨n, Nat.le_refl n, by omega, by simp [isUtf8_nil]⟩
  | cons c cs ih =>
    rw [List.flatMap_cons]
    have hsize := String.length_utf8EncodeChar c
    have hfour := c.utf8Size_le_four
    by_cases hfits : c.utf8Size ≤ n
    · obtain ⟨i, hi, hnear, htext⟩ := ih (n - c.utf8Size)
      refine ⟨c.utf8Size + i, by omega, by omega, ?_⟩
      rw [← hsize, List.take_length_add_append]
      exact IsUtf8.append ⟨[c], by simp⟩ htext
    · exact ⟨0, Nat.zero_le n, by omega, isUtf8_nil⟩

/-- `valid_up_to`: the longest beginning that is a text. -/
def validUpTo (bytes : List UInt8) : Nat :=
  Nat.findGreatest (fun i => IsUtf8 (bytes.take i)) bytes.length

theorem validUpTo_le (bytes : List UInt8) : validUpTo bytes ≤ bytes.length :=
  Nat.findGreatest_le _

theorem isUtf8_take_validUpTo (bytes : List UInt8) : IsUtf8 (bytes.take (validUpTo bytes)) :=
  Nat.findGreatest_spec (P := fun i => IsUtf8 (bytes.take i)) (Nat.zero_le _) isUtf8_nil

theorem le_validUpTo {i : Nat} (hi : i ≤ bytes.length)
    (h : IsUtf8 (bytes.take i)) : i ≤ validUpTo bytes :=
  Nat.le_findGreatest hi h

/-- The bytes of a character: an ASCII byte alone, or bytes that are not ASCII and of which
all but the first continue it. -/
theorem utf8EncodeChar_cases (c : Char) :
    (∃ b, b < 128 ∧ String.utf8EncodeChar c = [b]) ∨
      ∃ b rest, String.utf8EncodeChar c = b :: rest ∧ 192 ≤ b ∧ ∀ x ∈ rest, continuation x = true := by
  have hcontinues : ∀ n, continuation (UInt8.ofNat (n % 64 + 128)) = true := by
    intro n
    have hlow : n % 64 + 128 < 256 := by omega
    simp only [continuation, Bool.and_eq_true, decide_eq_true_eq, UInt8.le_iff_toNat_le,
      UInt8.lt_iff_toNat_lt, UInt8.toNat_ofNat']
    rw [Nat.mod_eq_of_lt hlow]
    exact ⟨Nat.le_add_left .., show n % 64 + 128 < 192 by omega⟩
  have hfirst : ∀ n, 192 ≤ n → n < 256 → 192 ≤ UInt8.ofNat n := by
    intro n hlow hhigh
    rw [UInt8.le_iff_toNat_le, UInt8.toNat_ofNat', Nat.mod_eq_of_lt hhigh]
    exact hlow
  unfold String.utf8EncodeChar
  dsimp only
  split
  · rename_i hascii
    refine .inl ⟨_, ?_, rfl⟩
    rw [UInt8.lt_iff_toNat_lt, UInt8.toNat_ofNat']
    exact Nat.lt_of_le_of_lt (Nat.mod_le ..) (Nat.lt_succ_of_le hascii)
  · apply Or.inr
    split
    · exact ⟨_, _, rfl, hfirst _ (by omega) (by omega),
        List.forall_mem_singleton.mpr (hcontinues _)⟩
    · split
      · exact ⟨_, _, rfl, hfirst _ (by omega) (by omega), List.forall_mem_cons.mpr
          ⟨hcontinues _, List.forall_mem_singleton.mpr (hcontinues _)⟩⟩
      · exact ⟨_, _, rfl, hfirst _ (by omega) (by omega), List.forall_mem_cons.mpr ⟨hcontinues _,
          List.forall_mem_cons.mpr ⟨hcontinues _, List.forall_mem_singleton.mpr (hcontinues _)⟩⟩⟩

theorem not_continuation_of_ascii (hb : b < 128) : continuation b = false := by
  simp [continuation, UInt8.not_le.mpr hb]

/-- A text that starts with a byte starts with a character. -/
theorem IsUtf8.head (h : IsUtf8 (b :: bytes)) : continuation b = false := by
  obtain ⟨cs, hcs⟩ := h
  cases cs with
  | nil => cases hcs
  | cons c cs =>
    rw [List.flatMap_cons] at hcs
    obtain ⟨x, hx, hc⟩ | ⟨x, rest, hc, hx, -⟩ := utf8EncodeChar_cases c
    · rw [hc] at hcs
      cases hcs
      exact not_continuation_of_ascii hx
    · rw [hc] at hcs
      cases hcs
      simp [continuation, UInt8.not_lt.mpr hx]

/-- Both sides of an ASCII byte of a text are texts. -/
theorem IsUtf8.split (hb : b < 128)
    (h : IsUtf8 (before ++ b :: after)) : IsUtf8 before ∧ IsUtf8 after := by
  obtain ⟨cs, hcs⟩ := h
  induction cs generalizing before with
  | nil => simp at hcs
  | cons c cs ih =>
    rw [List.flatMap_cons] at hcs
    obtain ⟨x, hx, hc⟩ | ⟨x, rest, hc, hx, hrest⟩ := utf8EncodeChar_cases c
    · rw [hc, List.singleton_append] at hcs
      cases before with
      | nil =>
        cases hcs
        exact ⟨isUtf8_nil, cs, rfl⟩
      | cons y before =>
        obtain ⟨rfl, hrest⟩ := List.cons_eq_cons.mp hcs
        obtain ⟨hbefore, hafter⟩ := ih hrest
        exact ⟨IsUtf8.append (a := [y]) ⟨[c], by simp [hc]⟩ hbefore, hafter⟩
    · -- The ASCII byte is none of this character's, so the whole character lies before it.
      have hlong : (String.utf8EncodeChar c).length ≤ before.length := by
        by_contra hshort
        have hat : (String.utf8EncodeChar c)[before.length]? = some b := by
          have hget := congrArg (fun l => l[before.length]?) hcs
          simp only [List.getElem?_append_right (Nat.le_refl _), Nat.sub_self,
            List.getElem?_cons_zero] at hget
          rw [hget, List.getElem?_append_left (Nat.not_le.mp hshort)]
        have hmem := List.mem_of_getElem? hat
        rw [hc, List.mem_cons] at hmem
        obtain rfl | hmem := hmem
        · exact absurd hb (UInt8.not_lt.mpr (UInt8.le_trans (by decide) hx))
        · exact absurd (hrest b hmem) (by simp [not_continuation_of_ascii hb])
      obtain ⟨before', rfl⟩ : ∃ before', before = String.utf8EncodeChar c ++ before' := by
        have hwhole : before <+: before ++ b :: after := ⟨_, rfl⟩
        have hchar : String.utf8EncodeChar c <+: before ++ b :: after := ⟨_, hcs.symm⟩
        obtain ⟨before', h⟩ := List.prefix_of_prefix_length_le hchar hwhole hlong
        exact ⟨before', h.symm⟩
      rw [List.append_assoc, List.append_cancel_left_eq] at hcs
      obtain ⟨hbefore, hafter⟩ := ih hcs
      exact ⟨IsUtf8.append ⟨[c], by simp⟩ hbefore, hafter⟩

/-- A text may be cut before an ASCII byte and after it. -/
theorem isCharBoundary_ascii (hb : b < 128) (h : IsUtf8 (before ++ b :: after)) :
    isCharBoundary (before ++ b :: after) before.length = true ∧
      isCharBoundary (before ++ b :: after) (before.length + 1) = true := by
  constructor
  · simp [isCharBoundary, not_continuation_of_ascii hb]
  · have hafter := (h.split hb).2
    cases after with
    | nil => simp [isCharBoundary]
    | cons x after => simp [isCharBoundary, hafter.head]

/-! Slices. They panic where they would cut a character. -/

def sliceTo (bytes : List UInt8) (i : Nat) : Option (List UInt8) :=
  if isCharBoundary bytes i then some (bytes.take i) else none

def sliceFrom (bytes : List UInt8) (i : Nat) : Option (List UInt8) :=
  if isCharBoundary bytes i then some (bytes.drop i) else none

section Slices

variable {before after : List UInt8} {b : UInt8} (hb : b < 128) (h : IsUtf8 (before ++ b :: after))
include hb h

theorem sliceTo_ascii : sliceTo (before ++ b :: after) before.length = some before := by
  rw [sliceTo, if_pos (isCharBoundary_ascii hb h).1, List.take_left]

theorem sliceFrom_ascii : sliceFrom (before ++ b :: after) (before.length + 1) = some after := by
  rw [sliceFrom, if_pos (isCharBoundary_ascii hb h).2, ← List.drop_drop, List.drop_left,
    List.drop_one, List.tail_cons]

end Slices

theorem sliceTo_length (bytes : List UInt8) : sliceTo bytes bytes.length = some bytes := by
  have hend : isCharBoundary bytes bytes.length = true := by
    unfold isCharBoundary
    simp
  rw [sliceTo, if_pos hend, List.take_length]

end KazuOS.Lib
