import KazuOS.Lib.Run
import Mathlib.Logic.Function.Basic

/-! Parties that share a state and run step by step in any order. -/
namespace KazuOS.Lib

/-- The simulation rule: if each step keeps an invariant and is, seen from above, the step its
label names or none at all, then a run is a run from above. -/
theorem Run.simulates {step : σ → ε → σ → Prop} {above : τ → δ → τ → Prop} {I : σ → Prop}
    {view : σ → τ} {label : ε → Option δ} (kept : ∀ s e t, I s → step s e t → I t)
    (hidden : ∀ s e t, I s → step s e t → label e = none → view t = view s)
    (shown : ∀ s e t d, I s → step s e t → label e = some d → above (view s) d (view t)) {s t : σ}
    {es : List ε} (run : Run step s es t) (initially : I s) :
    Run above (view s) (es.filterMap label) (view t) := by
  induction run with
  | nil s => exact .nil _
  | @cons s u t e es head _ ih =>
    have hrest := ih (kept _ _ _ initially head)
    cases hlabel : label e with
    | none =>
      rw [List.filterMap_cons_none hlabel, ← hidden _ _ _ initially head hlabel]
      exact hrest
    | some d =>
      rw [List.filterMap_cons_some hlabel]
      exact .cons (shown _ _ _ _ initially head hlabel) hrest

section Exclusion

variable {ι π : Type*} [DecidableEq ι] {at_ : ι → π} {inside : π → Prop} {flag : Bool} {i j : ι}
  {p : π}

/-- After a step of one party, something holds of the party that moved or held before. -/
theorem of_update {P : π → Prop} (h : P (Function.update at_ i p j)) :
    (j = i ∧ P p) ∨ (j ≠ i ∧ P (at_ j)) := by
  by_cases hj : j = i
  · rw [hj, Function.update_self] at h
    exact .inl ⟨hj, h⟩
  · rw [Function.update_of_ne hj] at h
    exact .inr ⟨hj, h⟩

/-- At most one party holds the lock, and the flag is set while one does. -/
structure Exclusive (flag : Bool) (holds : ι → Prop) : Prop where
  flagged : ∀ i, holds i → flag = true
  unique : ∀ i j, holds i → holds j → i = j

namespace Exclusive

theorem acquire (h : Exclusive false fun j => inside (at_ j)) (i : ι) (p : π) :
    Exclusive true fun j => inside (Function.update at_ i p j) := by
  have honly : ∀ j, inside (Function.update at_ i p j) → j = i := by
    intro j hj
    obtain hj | hj := of_update hj
    · exact hj.1
    · exact absurd (h.flagged j hj.2) Bool.false_ne_true
  exact ⟨fun _ _ => rfl, fun j k hj hk => (honly j hj).trans (honly k hk).symm⟩

/-- A step that takes nobody inside. -/
theorem move (h : Exclusive flag fun j => inside (at_ j)) (hp : inside p → inside (at_ i)) :
    Exclusive flag fun j => inside (Function.update at_ i p j) := by
  have hbefore : ∀ j, inside (Function.update at_ i p j) → inside (at_ j) := by
    intro j hj
    obtain ⟨rfl, hmoved⟩ | hj := of_update hj
    · exact hp hmoved
    · exact hj.2
  exact ⟨fun j hj => h.flagged j (hbefore j hj),
    fun j k hj hk => h.unique j k (hbefore j hj) (hbefore k hk)⟩

theorem release (h : Exclusive flag fun j => inside (at_ j)) (hi : inside (at_ i)) (hp : ¬inside p) :
    Exclusive false fun j => inside (Function.update at_ i p j) := by
  have hnone : ∀ j, ¬inside (Function.update at_ i p j) := by
    intro j hj
    obtain hj | hj := of_update hj
    · exact hp hj.2
    · exact hj.1 (h.unique j i hj.2 hi)
  exact ⟨fun j hj => absurd hj (hnone j), fun j _ hj => absurd hj (hnone j)⟩

end Exclusive

end Exclusion

end KazuOS.Lib
