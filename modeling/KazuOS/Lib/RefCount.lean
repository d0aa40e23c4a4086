import Mathlib.Data.List.Perm.Basic

/-! Reference counts that are kept by hand beside the references they count. -/
namespace KazuOS.Lib

variable {ρ : Type*} [DecidableEq ρ]

/-- Every count is the number of references of its kind. -/
def Counted (refs : ρ → Nat) (held : List ρ) : Prop := ∀ r, refs r = held.count r

namespace Counted

variable {refs : ρ → Nat} {held held' : List ρ} {r : ρ}

theorem perm (h : Counted refs held) (hperm : held.Perm held') : Counted refs held' := by
  intro r
  rw [h r, hperm.count_eq]

/-- Handing out a reference and counting it. -/
theorem retain (h : Counted refs held) :
    Counted (Function.update refs r (refs r + 1)) (r :: held) := by
  intro s
  by_cases hs : s = r
  · subst hs
    rw [Function.update_self, List.count_cons_self, h s]
  · rw [Function.update_of_ne hs, List.count_cons_of_ne (Ne.symm hs), h s]

/-- Giving one back. -/
theorem release (h : Counted refs (r :: held)) :
    Counted (Function.update refs r (refs r - 1)) held := by
  intro s
  by_cases hs : s = r
  · subst hs
    rw [Function.update_self, h s, List.count_cons_self, Nat.add_sub_cancel]
  · rw [Function.update_of_ne hs, h s, List.count_cons_of_ne (Ne.symm hs)]

theorem pos (h : Counted refs held) (hr : r ∈ held) : 0 < refs r := by
  rw [h r]
  exact List.count_pos_iff.mpr hr

end Counted

end KazuOS.Lib
