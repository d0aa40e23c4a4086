import Mathlib.Logic.Function.Basic

/-! Radix trees of tables. A table of level `n + 1` links tables of level `n`, and
a path of indices is followed down to a slot of a level-one table. In a forest no
table has two parents, so two paths never meet in one slot. -/
namespace KazuOS.Lib

variable {τ ι : Type*}

/-- The slot a path ends in: every index but the last is followed to a child. -/
def slot (child : τ → ι → Option τ) : τ → List ι → Option (τ × ι)
  | _, [] => none
  | table, [i] => some (table, i)
  | table, i :: j :: path => (child table i).bind fun next => slot child next (j :: path)

/-- The linking slots of a forest. Of a root only the `top` indices belong to it. -/
def Links (height : Nat) (top : ι → Prop) (level : τ → Nat) (table : τ) (i : ι) : Prop :=
  2 ≤ level table ∧ level table ≤ height ∧ (level table = height → top i)

/-- A path that leads from a table to a slot of level one. -/
def Fits (height : Nat) (top : ι → Prop) (level : τ → Nat) (table : τ) (path : List ι) : Prop :=
  level table = path.length ∧ level table ≤ height ∧
    (level table = height → ∀ i ∈ path.head?, top i)

structure Forest (height : Nat) (top : ι → Prop) (child : τ → ι → Option τ)
    (level : τ → Nat) : Prop where
  descends : ∀ t i u, Links height top level t i → child t i = some u → level u + 1 = level t
  unique : ∀ t i t' i' u, Links height top level t i → Links height top level t' i' →
    child t i = some u → child t' i' = some u → t = t' ∧ i = i'

namespace Fits

variable {height : Nat} {top : ι → Prop} {level : τ → Nat} {table : τ} {i j : ι} {path : List ι}

theorem links (fits : Fits height top level table (i :: j :: path)) :
    Links height top level table i := by
  obtain ⟨hlevel, hheight, htop⟩ := fits
  simp only [List.length_cons] at hlevel
  exact ⟨by omega, hheight, fun h => htop h i rfl⟩

theorem next {child : τ → ι → Option τ} (forest : Forest height top child level)
    (fits : Fits height top level table (i :: j :: path)) {next : τ}
    (hchild : child table i = some next) : Fits height top level next (j :: path) := by
  have hdown := forest.descends _ _ _ fits.links hchild
  obtain ⟨hlevel, hheight, -⟩ := fits
  simp only [List.length_cons] at hlevel ⊢
  exact ⟨by simp only [List.length_cons]; omega, by omega, fun h => by omega⟩

end Fits

section Walks

variable {height : Nat} {top : ι → Prop} {child : τ → ι → Option τ} {level : τ → Nat}

variable {path : List ι} {leaf : τ × ι} {table : τ}

/-- A fitting path ends in a level-one table. -/
theorem level_of_slot (forest : Forest height top child level)
    (fits : Fits height top level table path)
    (hslot : slot child table path = some leaf) : level leaf.1 = 1 := by
  induction path generalizing table with
  | nil => simp [slot] at hslot
  | cons i rest ih =>
    cases rest with
    | nil =>
      simp only [slot, Option.some.injEq] at hslot
      subst hslot
      exact fits.1
    | cons j rest =>
      simp only [slot, Option.bind_eq_some_iff] at hslot
      obtain ⟨next, hchild, hnext⟩ := hslot
      exact ih (fits.next forest hchild) hnext

/-- Two paths of one length that end in the same slot are the same path. -/
theorem slot_injective (forest : Forest height top child level) {path path' : List ι}
    {table table' : τ} (fits : Fits height top level table path)
    (fits' : Fits height top level table' path') (hlength : path.length = path'.length)
    (hslot : slot child table path = some leaf)
    (hslot' : slot child table' path' = some leaf) : table = table' ∧ path = path' := by
  induction path generalizing table table' path' with
  | nil => simp [slot] at hslot
  | cons i rest ih =>
    obtain _ | ⟨i', rest'⟩ := path'
    · simp at hlength
    obtain _ | ⟨j, rest⟩ := rest
    · obtain rfl : rest' = [] := List.length_eq_zero_iff.mp (by simpa using hlength.symm)
      simp only [slot, Option.some.injEq] at hslot hslot'
      have hsame := hslot.trans hslot'.symm
      simp only [Prod.mk.injEq] at hsame
      exact ⟨hsame.1, by rw [hsame.2]⟩
    · obtain _ | ⟨j', rest'⟩ := rest'
      · simp at hlength
      simp only [slot, Option.bind_eq_some_iff] at hslot hslot'
      obtain ⟨next, hchild, hnext⟩ := hslot
      obtain ⟨next', hchild', hnext'⟩ := hslot'
      obtain ⟨rfl, hrest⟩ := ih (fits.next forest hchild) (fits'.next forest hchild')
        (by simpa using hlength) hnext hnext'
      obtain ⟨rfl, rfl⟩ := forest.unique _ _ _ _ _ fits.links fits'.links hchild hchild'
      exact ⟨rfl, by rw [hrest]⟩

/-- A walk reads the linking slots only. -/
theorem slot_congr (forest : Forest height top child level) {child' : τ → ι → Option τ}
    (agree : ∀ t i, Links height top level t i → child' t i = child t i)
    (fits : Fits height top level table path) : slot child' table path = slot child table path := by
  induction path generalizing table with
  | nil => rfl
  | cons i rest ih =>
    cases rest with
    | nil => rfl
    | cons j rest =>
      simp only [slot, agree _ _ fits.links]
      cases hchild : child table i with
      | none => rfl
      | some next => exact ih (fits.next forest hchild)

end Walks

/-- Hang the empty table `fresh` into the slot `i` of `parent`. -/
def link [DecidableEq τ] [DecidableEq ι] (child : τ → ι → Option τ) (parent : τ) (i : ι)
    (fresh : τ) (t : τ) (j : ι) : Option τ :=
  if t = parent ∧ j = i then some fresh else if t = fresh then none else child t j

namespace Forest

variable {height : Nat} {top : ι → Prop} {child : τ → ι → Option τ}
  {level : τ → Nat} {parent fresh : τ} {i : ι}

variable {child' : τ → ι → Option τ}

/-- Removing links keeps a forest a forest. -/
theorem prune (forest : Forest height top child level)
    (fewer : ∀ t i u, Links height top level t i → child' t i = some u → child t i = some u) :
    Forest height top child' level where
  descends t i u hlinks hchild := forest.descends t i u hlinks (fewer t i u hlinks hchild)
  unique t i t' i' u hlinks hlinks' hchild hchild' :=
    forest.unique t i t' i' u hlinks hlinks' (fewer _ _ _ hlinks hchild)
      (fewer _ _ _ hlinks' hchild')

variable [DecidableEq τ]

/-- A new root links nothing yet. -/
theorem plant (forest : Forest height top child level) (hlevel : level fresh = 0)
    (hempty : ∀ i, top i → child' fresh i = none)
    (hsame : ∀ t i, t ≠ fresh → child' t i = child t i) :
    Forest height top child' (Function.update level fresh height) := by
  have hold : ∀ t i u, Links height top (Function.update level fresh height) t i →
      child' t i = some u → t ≠ fresh ∧ Links height top level t i ∧ child t i = some u := by
    intro t i u hlinks hchild
    have hne : t ≠ fresh := by
      rintro rfl
      have hnone := hempty i (hlinks.2.2 (by simp))
      rw [hchild] at hnone
      cases hnone
    refine ⟨hne, ?_, (hsame t i hne).symm.trans hchild⟩
    simpa [Links, Function.update_of_ne hne] using hlinks
  constructor
  · intro t i u hlinks hchild
    obtain ⟨hne, hl, hc⟩ := hold t i u hlinks hchild
    have hdown := forest.descends t i u hl hc
    have hpos := hl.1
    have hu : u ≠ fresh := by
      rintro rfl
      omega
    rw [Function.update_of_ne hne, Function.update_of_ne hu]
    exact hdown
  · intro t i t' i' u hlinks hlinks' hchild hchild'
    obtain ⟨-, hl, hc⟩ := hold t i u hlinks hchild
    obtain ⟨-, hl', hc'⟩ := hold t' i' u hlinks' hchild'
    exact forest.unique t i t' i' u hl hl' hc hc'

variable [DecidableEq ι]

/-- The links after hanging a fresh table: the new one, and the old ones. -/
private theorem link_cases (hfresh : level fresh = 0) (hlinks : Links height top level parent i)
    {t u : τ} {j : ι} (h : Links height top (Function.update level fresh (level parent - 1)) t j)
    (hchild : link child parent i fresh t j = some u) :
    (t = parent ∧ j = i ∧ u = fresh) ∨
      (t ≠ fresh ∧ Links height top level t j ∧ child t j = some u) := by
  have hparent : parent ≠ fresh := by
    rintro rfl
    have := hlinks.1
    omega
  unfold link at hchild
  split at hchild
  · rename_i hslot
    exact .inl ⟨hslot.1, hslot.2, (Option.some.inj hchild).symm⟩
  · split at hchild
    · cases hchild
    · rename_i hne
      refine .inr ⟨hne, ?_, hchild⟩
      simpa [Links, Function.update_of_ne hne] using h

/-- Hanging a fresh table into an empty slot keeps a forest a forest. -/
theorem link (forest : Forest height top child level) (hfresh : level fresh = 0)
    (hlinks : Links height top level parent i) :
    Forest height top (Lib.link child parent i fresh)
      (Function.update level fresh (level parent - 1)) := by
  have hpos := hlinks.1
  have hparent : parent ≠ fresh := by
    rintro rfl
    omega
  have hchild_ne : ∀ t j u, Links height top level t j → child t j = some u → u ≠ fresh := by
    rintro t j u hl hc rfl
    have := forest.descends t j u hl hc
    have := hl.1
    omega
  constructor
  · intro t j u h hchild
    obtain ⟨rfl, rfl, rfl⟩ | ⟨hne, hl, hc⟩ := link_cases hfresh hlinks h hchild
    · rw [Function.update_self, Function.update_of_ne hparent]
      omega
    · rw [Function.update_of_ne hne, Function.update_of_ne (hchild_ne t j u hl hc)]
      exact forest.descends t j u hl hc
  · intro t j t' j' u h h' hchild hchild'
    obtain ⟨rfl, rfl, rfl⟩ | ⟨-, hl, hc⟩ := link_cases hfresh hlinks h hchild
    · obtain ⟨rfl, rfl, -⟩ | ⟨-, hl', hc'⟩ := link_cases hfresh hlinks h' hchild'
      · exact ⟨rfl, rfl⟩
      · exact absurd rfl (hchild_ne t' j' _ hl' hc')
    · obtain ⟨rfl, rfl, rfl⟩ | ⟨-, hl', hc'⟩ := link_cases hfresh hlinks h' hchild'
      · exact absurd rfl (hchild_ne t j _ hl hc)
      · exact forest.unique t j t' j' u hl hl' hc hc'

end Forest

section Links

variable [DecidableEq τ] [DecidableEq ι] {height : Nat} {top : ι → Prop}
  {child : τ → ι → Option τ} {level : τ → Nat} {parent fresh : τ} {i : ι} {path : List ι} {table : τ}

/-- Paths that end somewhere are not affected by hanging a fresh table; the
others end in the fresh table at most. -/
theorem slot_link (forest : Forest height top child level) (hfresh : level fresh = 0)
    (hlinks : Links height top level parent i) (hempty : child parent i = none)
    (fits : Fits height top level table path) :
    slot (link child parent i fresh) table path = slot child table path ∨
      slot child table path = none ∧
        ∀ leaf, slot (link child parent i fresh) table path = some leaf → leaf.1 = fresh := by
  have hbelow : ∀ rest leaf, slot (link child parent i fresh) fresh rest = some leaf →
      leaf.1 = fresh := by
    intro rest leaf hslot
    obtain _ | ⟨j, _ | ⟨k, rest⟩⟩ := rest
    · simp [slot] at hslot
    · simp only [slot, Option.some.injEq] at hslot
      rw [← hslot]
    · have hparent : fresh ≠ parent := by
        rintro rfl
        have := hlinks.1
        omega
      simp [slot, link, hparent] at hslot
  induction path generalizing table with
  | nil => exact .inl rfl
  | cons j rest ih =>
    cases rest with
    | nil => exact .inl rfl
    | cons k rest =>
      simp only [slot]
      by_cases hslot : table = parent ∧ j = i
      · obtain ⟨rfl, rfl⟩ := hslot
        simp only [link, and_self, if_true, hempty, Option.bind_none, Option.bind_some]
        exact .inr ⟨trivial, hbelow _⟩
      · have htable : table ≠ fresh := by
          rintro rfl
          have := fits.links.1
          omega
        simp only [link, hslot, htable, if_false]
        cases hchild : child table j with
        | none => exact .inl rfl
        | some next => exact ih (fits.next forest hchild)

/-- What is found at the ends of paths stays: a fresh table is empty. -/
theorem leaf_link (forest : Forest height top child level) (hfresh : level fresh = 0)
    (hlinks : Links height top level parent i) (hempty : child parent i = none)
    (fits : Fits height top level table path) :
    ((slot (link child parent i fresh) table path).bind fun leaf =>
        link child parent i fresh leaf.1 leaf.2) =
      (slot child table path).bind fun leaf => child leaf.1 leaf.2 := by
  have hparent := hlinks.1
  obtain hsame | ⟨hnone, hends⟩ := slot_link forest hfresh hlinks hempty fits
  · rw [hsame]
    cases hslot : slot child table path with
    | none => rfl
    | some leaf =>
      have hleaf := level_of_slot forest fits hslot
      have hne : ¬(leaf.1 = parent ∧ leaf.2 = i) := by
        rintro ⟨rfl, -⟩
        omega
      have hold : leaf.1 ≠ fresh := by
        rintro rfl
        omega
      rw [Option.bind_some, Option.bind_some, link, if_neg hne, if_neg hold]
  · rw [hnone]
    cases hslot : slot (link child parent i fresh) table path with
    | none => rfl
    | some leaf =>
      have hnew := hends leaf hslot
      have hne : ¬(leaf.1 = parent ∧ leaf.2 = i) := by
        rintro ⟨rfl, -⟩
        rw [hnew] at hparent
        omega
      rw [Option.bind_some, Option.bind_none, link, if_neg hne, if_pos hnew]

end Links

end KazuOS.Lib
