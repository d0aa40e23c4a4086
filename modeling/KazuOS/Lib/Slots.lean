import Mathlib.Data.List.Basic

/-! Tables whose places are numbered and may be free. A place keeps its number for good; what
is removed leaves a hole, and a newcomer takes the first hole or a new place at the end. -/
namespace KazuOS.Lib

variable {α : Type*} {slots : List (Option α)}

theorem lt_of_slot {i : Nat} {a : α} (h : slots[i]?.join = some a) : i < slots.length := by
  by_contra hge
  rw [List.getElem?_eq_none (Nat.le_of_not_lt hge)] at h
  cases h

theorem slot_set {i : Nat} (h : i < slots.length) (content : Option α) (j : Nat) :
    (slots.set i content)[j]?.join = if j = i then content else slots[j]?.join := by
  by_cases hj : j = i
  · subst hj
    simp [List.getElem?_set_self h]
  · simp [List.getElem?_set_ne (Ne.symm hj), hj]

theorem slot_length (slots : List (Option α)) : slots[slots.length]?.join = none := by
  simp

theorem slot_concat (slots : List (Option α)) (content : Option α) (j : Nat) :
    (slots ++ [content])[j]?.join = if j = slots.length then content else slots[j]?.join := by
  rcases Nat.lt_trichotomy j slots.length with hlt | rfl | hgt
  · simp [List.getElem?_append_left hlt, Nat.ne_of_lt hlt]
  · simp
  · have hend : (slots ++ [content]).length ≤ j := by
      rw [List.length_append]
      exact hgt
    rw [List.getElem?_eq_none hend, List.getElem?_eq_none (Nat.le_of_lt hgt),
      if_neg (Nat.ne_of_gt hgt)]

/-- The first hole is inside the table and free. -/
theorem slot_of_findIdx? {i : Nat} (h : slots.findIdx? Option.isNone = some i) :
    i < slots.length ∧ slots[i]?.join = none := by
  obtain ⟨hlt, hnone, -⟩ := List.findIdx?_eq_some_iff_getElem.mp h
  refine ⟨hlt, ?_⟩
  rw [List.getElem?_eq_getElem hlt, Option.isNone_iff_eq_none.mp hnone]
  rfl

end KazuOS.Lib
