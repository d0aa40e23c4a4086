import Mathlib.Data.List.Rotate
import Mathlib.Order.Lattice

/-! Round robin over a changing set. From a position the turn goes to the least ready element
above it, or to the least of all if there is none above. An element that stays ready cannot
be passed over, so until its turn comes the turns are one sweep upwards from the position
and, after at most one wrap, one sweep up to the element. Over a set that stays the same the
turns go round. -/
namespace KazuOS.Lib

variable {α : Type} [LinearOrder α]

/-- `next` has the turn after `pos`. -/
inductive Follows (ready : α → Prop) (pos next : α) : Prop where
  | above (chosen : ready next) (later : pos < next)
      (least : ∀ r, ready r → pos < r → next ≤ r)
  | wraps (chosen : ready next) (none : ∀ r, ready r → r ≤ pos) (least : ∀ r, ready r → next ≤ r)

theorem Follows.ready {ready : α → Prop} {pos next : α} (h : Follows ready pos next) :
    ready next := by
  cases h with
  | above chosen => exact chosen
  | wraps chosen => exact chosen

/-- A ready element bounds the next turn. -/
theorem Follows.bound {ready : α → Prop} {pos next x : α} (h : Follows ready pos next)
    (hx : ready x) : next = x ∨ (pos < next ∧ next < x) ∨ (x ≤ pos ∧ (pos < next ∨ next < x)) := by
  cases h with
  | above _ later least =>
    rcases lt_or_ge pos x with hbefore | hafter
    · rcases (least x hx hbefore).eq_or_lt with heq | hlt
      · exact .inl heq
      · exact .inr (.inl ⟨later, hlt⟩)
    · exact .inr (.inr ⟨hafter, .inl later⟩)
  | wraps _ none least =>
    rcases (least x hx).eq_or_lt with heq | hlt
    · exact .inl heq
    · exact .inr (.inr ⟨none x hx, .inr hlt⟩)

/-- Starting over is continuing if nothing ready lies above the position, or all of it does. -/
theorem Follows.restart {ready : α → Prop} {bottom pos next : α}
    (h : Follows ready bottom next) (hbottom : ∀ r, ready r → bottom < r)
    (hside : (∀ r, ready r → r ≤ pos) ∨ ∀ r, ready r → pos < r) : Follows ready pos next := by
  cases h with
  | above chosen _ least =>
    obtain hnone | hall := hside
    · exact .wraps chosen hnone fun r hr => least r hr (hbottom r hr)
    · exact .above chosen (hall next chosen) fun r hr _ => least r hr (hbottom r hr)
  | wraps chosen none _ => exact absurd (hbottom next chosen) (none next chosen).not_gt

/-- The turns before that of `x`: a rising part above `x`, then a rising part below it. -/
def Sweep (x : α) (turns : List α) : Prop :=
  ∃ up down, turns = up ++ down ∧ up.Pairwise (· < ·) ∧ down.Pairwise (· < ·) ∧
    (∀ d ∈ up, x < d) ∧ ∀ d ∈ down, d < x

namespace Sweep

variable {x : α} {turns : List α}

theorem nil : Sweep x [] := ⟨[], [], rfl, .nil, .nil, by simp, by simp⟩

theorem nodup (h : Sweep x turns) : turns.Nodup := by
  obtain ⟨up, down, rfl, hup, hdown, habove, hbelow⟩ := h
  refine List.nodup_append.mpr ⟨hup.imp ne_of_lt, hdown.imp ne_of_lt, ?_⟩
  intro a ha b hb
  exact ((hbelow b hb).trans (habove a ha)).ne'

/-- A rising list goes on rising past its last element. -/
theorem rising_snoc {front : List α} {last next : α} (h : (front ++ [last]).Pairwise (· < ·))
    (hlt : last < next) : (front ++ [last] ++ [next]).Pairwise (· < ·) := by
  refine List.pairwise_append.mpr ⟨h, List.pairwise_singleton _ _, ?_⟩
  intro d hd n hn
  obtain rfl := List.mem_singleton.mp hn
  rcases List.mem_append.mp hd with hd | hd
  · exact ((List.pairwise_append.mp h).2.2 d hd last (List.mem_singleton_self _)).trans hlt
  · exact List.mem_singleton.mp hd ▸ hlt

/-- The next turn, taken from the last one, continues the sweep. -/
theorem snoc (h : Sweep x turns) {ready : α → Prop} {pos next : α}
    (hnext : Follows ready pos next) (hpos : ∀ last ∈ turns.getLast?, pos = last)
    (hx : ready x) (hother : next ≠ x) : Sweep x (turns ++ [next]) := by
  obtain ⟨up, down, rfl, hup, hdown, habove, hbelow⟩ := h
  have hbound := (hnext.bound hx).resolve_left hother
  rcases down.eq_nil_or_concat with rfl | ⟨front, last, rfl⟩
  · -- Still above `x`, or before the first turn.
    rw [List.append_nil] at hpos ⊢
    rcases lt_or_gt_of_ne hother with hlow | hhigh
    · exact ⟨up, [next], rfl, hup, List.pairwise_singleton _ _, habove, by simpa using hlow⟩
    · refine ⟨up ++ [next], [], by simp, ?_, .nil, ?_, by simp⟩
      · rcases up.eq_nil_or_concat with rfl | ⟨front, last, rfl⟩
        · exact List.pairwise_singleton _ _
        · rw [List.concat_eq_append] at hup hpos ⊢
          obtain rfl := hpos last (by simp)
          refine rising_snoc hup ?_
          rcases hbound with ⟨-, hlt⟩ | ⟨-, hlt | hlt⟩
          · exact absurd hlt hhigh.not_gt
          · exact hlt
          · exact absurd hlt hhigh.not_gt
      · intro d hd
        rcases List.mem_append.mp hd with hd | hd
        · exact habove d hd
        · exact List.mem_singleton.mp hd ▸ hhigh
  · -- Below `x`: the next turn lies between the last one and `x`.
    rw [List.concat_eq_append] at hdown hbelow hpos ⊢
    obtain rfl := hpos last (by simp)
    have hlast := hbelow pos (by simp)
    obtain ⟨hlt, hhigh⟩ := hbound.resolve_right fun hwrap => hlast.not_ge hwrap.1
    refine ⟨up, front ++ [pos] ++ [next], by simp, hup, rising_snoc hdown hlt, habove, ?_⟩
    intro d hd
    rcases List.mem_append.mp hd with hd | hd
    · exact hbelow d hd
    · exact List.mem_singleton.mp hd ▸ hhigh

end Sweep

/-- The ready elements in the order of their turns after `pos`: those above it, then the
others. -/
structure Rotation (ready : α → Prop) (pos : α) (turns : List α) : Prop where
  mem_iff : ∀ r, ready r ↔ r ∈ turns
  order : ∃ up down, turns = up ++ down ∧ up.Pairwise (· < ·) ∧ down.Pairwise (· < ·) ∧
    (∀ d ∈ up, pos < d) ∧ ∀ d ∈ down, d ≤ pos

namespace Rotation

variable {ready : α → Prop} {pos x : α} {rest turns : List α}

theorem nodup (h : Rotation ready pos turns) : turns.Nodup := by
  obtain ⟨up, down, rfl, hup, hdown, habove, hbelow⟩ := h.order
  refine List.nodup_append.mpr ⟨hup.imp ne_of_lt, hdown.imp ne_of_lt, ?_⟩
  intro a ha b hb
  exact ((hbelow b hb).trans_lt (habove a ha)).ne'

theorem of_sorted {sorted : List α} (hsorted : sorted.Pairwise (· < ·))
    (hmem : ∀ r, ready r ↔ r ∈ sorted) (pos : α) :
    Rotation ready pos (sorted.filter (pos < ·) ++ sorted.filter (· ≤ pos)) where
  mem_iff r := by
    rw [hmem]
    rcases lt_or_ge pos r with hlt | hge
    · simp [hlt, hlt.not_ge]
    · simp [hge, hge.not_gt]
  order := ⟨_, _, rfl, hsorted.filter _, hsorted.filter _, by simp, by simp⟩

/-- The head has the next turn. -/
theorem follows {next : α} (h : Rotation ready pos (x :: rest)) (hnext : Follows ready pos next) :
    next = x := by
  obtain ⟨up, down, heq, hup, hdown, habove, hbelow⟩ := h.order
  have hx : ready x := (h.mem_iff x).mpr List.mem_cons_self
  have hmem := (h.mem_iff next).mp hnext.ready
  rw [heq] at hmem
  cases up with
  | cons u up =>
    obtain ⟨rfl, rfl⟩ := List.cons_eq_cons.mp heq
    have hlt := habove x List.mem_cons_self
    cases hnext with
    | above _ later least =>
      obtain hmem | hmem := List.mem_append.mp hmem
      · obtain rfl | hmem := List.mem_cons.mp hmem
        · rfl
        · exact absurd (least x hx hlt) (List.rel_of_pairwise_cons hup hmem).not_ge
      · exact absurd later (hbelow next hmem).not_gt
    | wraps _ none _ => exact absurd hlt (none x hx).not_gt
  | nil =>
    -- Nothing lies above, so the least of all is next.
    obtain rfl : x :: rest = down := heq
    cases hnext with
    | above _ later _ => exact absurd later (hbelow next hmem).not_gt
    | wraps _ _ least =>
      obtain rfl | hmem := List.mem_cons.mp hmem
      · rfl
      · exact absurd (least x hx) (List.rel_of_pairwise_cons hdown hmem).not_ge

/-- After its turn the head is the last. -/
theorem step (h : Rotation ready pos (x :: rest)) : Rotation ready x (rest ++ [x]) where
  mem_iff r := by simp [h.mem_iff, or_comm]
  order := by
    obtain ⟨up, down, heq, hup, hdown, habove, hbelow⟩ := h.order
    cases up with
    | cons u up =>
      obtain ⟨rfl, rfl⟩ := List.cons_eq_cons.mp heq
      have hlt : ∀ d ∈ down, d < x := fun d hd =>
        (hbelow d hd).trans_lt (habove x List.mem_cons_self)
      refine ⟨up, down ++ [x], by simp, hup.of_cons, ?_, fun d hd =>
        List.rel_of_pairwise_cons hup hd, ?_⟩
      · exact List.pairwise_append.mpr ⟨hdown, List.pairwise_singleton _ _, by simpa using hlt⟩
      · intro d hd
        obtain hd | hd := List.mem_append.mp hd
        · exact (hlt d hd).le
        · exact (List.mem_singleton.mp hd).le
    | nil =>
      obtain rfl : x :: rest = down := heq
      exact ⟨rest, [x], rfl, hdown.of_cons, List.pairwise_singleton _ _, fun d hd =>
        List.rel_of_pairwise_cons hdown hd, by simp⟩

/-- Turn after turn, the order is rotated. -/
theorem iterate {next : α → α} (h : Rotation ready pos turns) (hne : turns ≠ [])
    (hnext : ∀ p, Follows ready p (next p)) (n : Nat) :
    Rotation ready (next^[n] pos) (turns.rotate n) ∧
      (turns.rotate n).head? = some (next^[n + 1] pos) := by
  have head : ∀ {p l}, Rotation ready p l → l ≠ [] → l.head? = some (next p) := by
    intro p l hl hne
    obtain ⟨y, l, rfl⟩ := List.exists_cons_of_ne_nil hne
    rw [hl.follows (hnext p), List.head?_cons]
  induction n with
  | zero =>
    rw [List.rotate_zero]
    exact ⟨h, head h hne⟩
  | succ n ih =>
    obtain ⟨hrot, hhead⟩ := ih
    obtain ⟨y, l, heq⟩ := List.exists_cons_of_ne_nil fun hnil => hne (List.rotate_eq_nil_iff.mp hnil)
    rw [heq] at hrot hhead
    obtain rfl : y = next^[n + 1] pos := Option.some.inj hhead
    have hstep : Rotation ready (next^[n + 1] pos) (turns.rotate (n + 1)) := by
      rw [← List.rotate_rotate, heq, List.rotate_cons_succ, List.rotate_zero]
      exact hrot.step
    refine ⟨hstep, ?_⟩
    rw [Function.iterate_succ_apply' next (n + 1)]
    exact head hstep fun hnil => hne (List.rotate_eq_nil_iff.mp hnil)

/-- The turns of one cycle are the list itself. -/
theorem turns_eq {next : α → α} (h : Rotation ready pos turns) (hne : turns ≠ [])
    (hnext : ∀ p, Follows ready p (next p)) :
    ((List.range turns.length).map fun i => next^[i + 1] pos) = turns := by
  apply List.ext_getElem?
  intro i
  rcases lt_or_ge i turns.length with hlt | hge
  · rw [List.getElem?_map, List.getElem?_range hlt, ← List.head?_rotate hlt,
      (h.iterate hne hnext i).2]
    rfl
  · rw [List.getElem?_eq_none (by simpa using hge), List.getElem?_eq_none hge]

theorem periodic {next : α → α} (h : Rotation ready pos turns) (hne : turns ≠ [])
    (hnext : ∀ p, Follows ready p (next p)) (n : Nat) :
    next^[n + 1 + turns.length] pos = next^[n + 1] pos := by
  have hlater := (h.iterate hne hnext (n + turns.length)).2
  rw [← List.rotate_mod, Nat.add_mod_right, List.rotate_mod, (h.iterate hne hnext n).2] at hlater
  rw [Nat.add_right_comm]
  exact (Option.some.inj hlater).symm

end Rotation

end KazuOS.Lib
