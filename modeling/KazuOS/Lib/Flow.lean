import Mathlib.Algebra.GroupWithZero.Nat
import Mathlib.Data.List.Basic

/-! Queues of elements that nobody may lose, and how a queue is shared out among
takers with bounded appetites. -/
namespace KazuOS.Lib

variable {α : Type*}

/-- What was queued followed by what arrived is what left followed by what is queued. -/
def Flow (before arrived left after : List α) : Prop := before ++ arrived = left ++ after

namespace Flow

variable {q q' q'' a a' l l' : List α}

theorem refl (q : List α) : Flow q [] [] q := List.append_nil q

theorem arrive (q a : List α) : Flow q a [] (q ++ a) := rfl

theorem leave (q : List α) (n : Nat) : Flow q [] (q.take n) (q.drop n) := by
  unfold Flow
  rw [List.append_nil, List.take_append_drop]

theorem trans (h : Flow q a l q') (h' : Flow q' a' l' q'') : Flow q (a ++ a') (l ++ l') q'' := by
  unfold Flow at h h' ⊢
  calc q ++ (a ++ a') = (q ++ a) ++ a' := (List.append_assoc q a a').symm
    _ = l ++ (q' ++ a') := by rw [h, List.append_assoc]
    _ = l ++ l' ++ q'' := by rw [h', List.append_assoc]

/-- From an empty queue to an empty queue, what arrived is what left. -/
theorem eq_nil_iff (h : Flow [] a l q) : q = [] ↔ a = l := by
  have ha : a = l ++ q := h
  constructor
  · intro hq
    rw [ha, hq, List.append_nil]
  · intro heq
    exact List.append_right_eq_self.mp (ha.symm.trans heq)

end Flow

/-- Takers with the given appetites are served in turn. -/
def shares : List Nat → List α → List (List α)
  | [], _ => []
  | n :: ns, q => q.take n :: shares ns (q.drop n)

theorem length_shares (ns : List Nat) (q : List α) : (shares ns q).length = ns.length := by
  induction ns generalizing q with
  | nil => rfl
  | cons n ns ih => rw [shares, List.length_cons, ih, List.length_cons]

theorem flatten_shares (ns : List Nat) (q : List α) : (shares ns q).flatten = q.take ns.sum := by
  induction ns generalizing q with
  | nil => simp [shares]
  | cons n ns ih => rw [shares, List.flatten_cons, ih, List.sum_cons, List.take_add]

/-- Nobody who asks for something is left with nothing exactly if those served before the
last of them leave something over. -/
theorem shares_ne_nil_iff (ns : List Nat) (q : List α) :
    (∀ s ∈ ns.zip (shares ns q), s.1 ≠ 0 → s.2 ≠ []) ↔
      ns.filter (· ≠ 0) = [] ∨ (ns.filter (· ≠ 0)).dropLast.sum < q.length := by
  induction ns generalizing q with
  | nil => simp [shares]
  | cons n ns ih =>
    rw [shares, List.zip_cons_cons, List.forall_mem_cons, ih, List.length_drop]
    by_cases hn : n = 0
    · subst hn
      simp
    · have hkept : (n :: ns).filter (· ≠ 0) = n :: ns.filter (· ≠ 0) :=
        List.filter_cons_of_pos (by simpa using hn)
      have hfirst : (n ≠ 0 → q.take n ≠ []) ↔ 0 < q.length := by
        simp [hn, List.length_pos_iff]
      rw [hkept]
      simp only [hfirst]
      cases hrest : ns.filter (· ≠ 0) with
      | nil => simp
      | cons m ms =>
        rw [List.dropLast_cons_cons, List.sum_cons]
        simp only [reduceCtorEq, false_or]
        omega

end KazuOS.Lib
