import Mathlib.Data.List.Perm.Basic
import Mathlib.Data.Option.Basic

/-! Tables kept as lists and searched from the front. An entry is found under its
key, and updates change the first entry that matches. -/
namespace KazuOS.Lib

variable {α κ : Type*}

section Related

variable {R : α → α → Prop}

theorem forall₂_trans (htrans : ∀ a b c, R a b → R b c → R a c) {l l' l'' : List α}
    (h : List.Forall₂ R l l') (h' : List.Forall₂ R l' l'') : List.Forall₂ R l l'' := by
  induction h generalizing l'' with
  | nil => exact h'
  | cons hR _ ih =>
    cases h' with
    | cons hR' h' => exact .cons (htrans _ _ _ hR hR') (ih h')

theorem forall₂_mem_right {l l' : List α} (h : List.Forall₂ R l l') {b : α} (hb : b ∈ l') :
    ∃ a ∈ l, R a b := by
  induction h with
  | nil => cases hb
  | @cons a c rest rest' hR _ ih =>
    obtain rfl | hb := List.mem_cons.mp hb
    · exact ⟨a, List.mem_cons_self, hR⟩
    · obtain ⟨d, hd, hRd⟩ := ih hb
      exact ⟨d, List.mem_cons_of_mem _ hd, hRd⟩

theorem forall₂_mem_left {l l' : List α} (h : List.Forall₂ R l l') {a : α} (ha : a ∈ l) :
    ∃ b ∈ l', R a b :=
  forall₂_mem_right (R := fun b a => R a b) h.flip ha

/-- What every round of a loop does to a part of the state, the loop does. -/
theorem foldl_related {σ ι : Type*} (hrefl : ∀ a, R a a) (htrans : ∀ a b c, R a b → R b c → R a c)
    (part : σ → α) {f : σ → ι → σ} (h : ∀ s i, R (part s) (part (f s i))) (l : List ι) (s : σ) :
    R (part s) (part (l.foldl f s)) := by
  induction l generalizing s with
  | nil => exact hrefl _
  | cons i rest ih => exact htrans _ _ _ (h s i) (ih (f s i))

end Related

def modifyFirst (p : α → Bool) (f : α → α) : List α → List α
  | [] => []
  | a :: rest => if p a then f a :: rest else a :: modifyFirst p f rest

variable {p : α → Bool} {l : List α} {a : α}

variable {f : α → α} {pos : Nat}

/-- Updating the first match relates each entry to itself or to its update. -/
theorem forall₂_modifyFirst {R : α → α → Prop} (hrefl : ∀ a, R a a) (l : List α)
    (hR : ∀ a, l.find? p = some a → R a (f a)) : List.Forall₂ R l (modifyFirst p f l) := by
  induction l with
  | nil => exact .nil
  | cons a rest ih =>
    rw [modifyFirst]
    split
    · rename_i hp
      apply List.Forall₂.cons
      · exact hR a (List.find?_cons_of_pos hp)
      · exact List.forall₂_same.mpr fun b _ => hrefl b
    · rename_i hp
      apply List.Forall₂.cons (hrefl a)
      apply ih
      intro b hb
      apply hR b
      rwa [List.find?_cons_of_neg hp]

/-- An update seen through a view of the entries. -/
theorem map_modifyFirst {β : Type*} {view : α → β} {q : β → Bool}
    {g : β → β} (hp : ∀ a, q (view a) = p a) (hf : ∀ a, view (f a) = g (view a)) (l : List α) :
    (modifyFirst p f l).map view = modifyFirst q g (l.map view) := by
  induction l with
  | nil => rfl
  | cons a rest ih =>
    cases ha : p a with
    | true => simp [modifyFirst, ha, hp, hf]
    | false => simp [modifyFirst, ha, hp, ih]

/-- An update leaves what stands before and behind the first match. -/
theorem modifyFirst_split (h : l.find? p = some a)
    (f : α → α) : ∃ front back, l = front ++ a :: back ∧ modifyFirst p f l = front ++ f a :: back := by
  induction l with
  | nil => cases h
  | cons b rest ih =>
    cases hb : p b with
    | true =>
      rw [List.find?_cons_of_pos hb] at h
      cases h
      exact ⟨[], rest, rfl, by simp [modifyFirst, hb]⟩
    | false =>
      rw [List.find?_cons_of_neg (by simp [hb])] at h
      obtain ⟨front, back, hl, hmodify⟩ := ih h
      exact ⟨b :: front, back, by simp [hl], by simp [modifyFirst, hb, hmodify]⟩

/-- If at most the updated entry passes a test, afterwards at most its update does. -/
theorem filter_modifyFirst_of_alone {p q : α → Bool}
    (hfound : l.find? q = some a) (halone : l.filter p = if p a then [a] else []) :
    (modifyFirst q f l).filter p = if p (f a) then [f a] else [] := by
  obtain ⟨front, back, rfl, hmodify⟩ := modifyFirst_split hfound f
  have hothers : front.filter p = [] ∧ back.filter p = [] := by
    rw [List.filter_append, List.filter_cons] at halone
    have hlength := congrArg List.length halone
    cases hp : p a with
    | true =>
      simp only [hp, if_true, List.length_append, List.length_cons, List.length_nil] at hlength
      exact ⟨List.length_eq_zero_iff.mp (by omega), List.length_eq_zero_iff.mp (by omega)⟩
    | false => simpa [hp] using halone
  rw [hmodify, List.filter_append, List.filter_cons, hothers.1, hothers.2]
  rfl

/-- The first match of an extended table is its new entry if no other matches. -/
theorem modifyFirst_concat
    (hl : ∀ b ∈ l, p b = false) (ha : p a = true) : modifyFirst p f (l ++ [a]) = l ++ [f a] := by
  induction l with
  | nil => simp [modifyFirst, ha]
  | cons b rest ih =>
    have hb : p b = false := hl b List.mem_cons_self
    simp [modifyFirst, hb, ih fun c hc => hl c (List.mem_cons_of_mem _ hc)]

theorem modifyFirst_modifyFirst {f g : α → α} (hp : ∀ a, p (f a) = p a)
    (l : List α) : modifyFirst p g (modifyFirst p f l) = modifyFirst p (g ∘ f) l := by
  induction l with
  | nil => rfl
  | cons a rest ih =>
    cases ha : p a with
    | true => simp [modifyFirst, ha, hp]
    | false => simp [modifyFirst, ha, ih]

/-- Remove the entry at a position, moving the last entry into its place. -/
def swapRemove (l : List α) (pos : Nat) : List α :=
  match l.getLast? with
  | none => []
  | some last => (l.set pos last).dropLast

theorem perm_swapRemove (h : l[pos]? = some a) : l.Perm (a :: swapRemove l pos) := by
  obtain ⟨hpos, rfl⟩ := List.getElem?_eq_some_iff.mp h
  obtain rfl | ⟨front, last, rfl⟩ := l.eq_nil_or_concat'
  · cases hpos
  · simp only [swapRemove, List.getLast?_append, List.getLast?_singleton, Option.some_or]
    by_cases hlt : pos < front.length
    · rw [List.set_append_left _ _ hlt, List.dropLast_concat, List.getElem_append_left hlt]
      have hset := List.set_perm_cons_eraseIdx hlt last
      have hget := List.getElem_cons_eraseIdx_perm hlt
      apply (List.perm_append_singleton _ _).trans
      apply (hget.symm.cons last).trans
      exact (List.Perm.swap _ _ _).trans (hset.symm.cons _)
    · have hlast : pos = front.length := by
        rw [List.length_append, List.length_singleton] at hpos
        omega
      subst hlast
      simp [List.perm_append_singleton]

/-- Position and entry of the first match are found together. -/
theorem findIdx?_find?_cases (p : α → Bool) (l : List α) :
    (l.findIdx? p = none ∧ l.find? p = none ∧ ∀ a ∈ l, p a = false) ∨
      ∃ pos a, l.findIdx? p = some pos ∧ l.find? p = some a ∧ l[pos]? = some a := by
  induction l with
  | nil => simp
  | cons b rest ih =>
    cases hb : p b with
    | true => exact .inr ⟨0, b, by simp [List.findIdx?_cons, hb], by simp [hb], rfl⟩
    | false =>
      obtain ⟨hidx, hfind, hnone⟩ | ⟨pos, a, hidx, hfind, hget⟩ := ih
      · exact .inl ⟨by simp [List.findIdx?_cons, hb, hidx], by simp [hb, hfind],
          by simpa [hb] using hnone⟩
      · exact .inr ⟨pos + 1, a, by simp [List.findIdx?_cons, hb, hidx], by simp [hb, hfind],
          by simpa using hget⟩

/-- Replacing the entry at a position, up to the order of the entries. -/
theorem perm_set (h : l[pos]? = some a) :
    ∃ rest, l.Perm (a :: rest) ∧ ∀ b, (l.set pos b).Perm (b :: rest) := by
  obtain ⟨hpos, rfl⟩ := List.getElem?_eq_some_iff.mp h
  exact ⟨l.eraseIdx pos, (List.getElem_cons_eraseIdx_perm hpos).symm,
    fun b => List.set_perm_cons_eraseIdx hpos b⟩

theorem modifyFirst_eq_modify (p : α → Bool) (f : α → α) (l : List α) :
    modifyFirst p f l = l.modify (l.findIdx p) f := by
  induction l with
  | nil => rfl
  | cons b rest ih =>
    rw [modifyFirst, List.findIdx_cons]
    cases hb : p b with
    | true => simp
    | false => simp [ih]

/-- Take out the first entry with a property. -/
def takeFirst (p : α → Bool) (l : List α) : Option (α × List α) :=
  match l.findIdx? p, l.find? p with
  | some pos, some a => some (a, swapRemove l pos)
  | _, _ => none

theorem perm_takeFirst {l rest : List α}
    (h : takeFirst p l = some (a, rest)) : p a = true ∧ l.Perm (a :: rest) := by
  obtain ⟨hidx, hfind, -⟩ | ⟨pos, b, hidx, hfind, hget⟩ := findIdx?_find?_cases p l
  · simp [takeFirst, hidx, hfind] at h
  · simp only [takeFirst, hidx, hfind, Option.some.injEq, Prod.mk.injEq] at h
    obtain ⟨rfl, rfl⟩ := h
    exact ⟨List.find?_some hfind, perm_swapRemove hget⟩

theorem takeFirst_eq_none_iff :
    takeFirst p l = none ↔ ∀ a ∈ l, p a = false := by
  obtain ⟨hidx, hfind, hnone⟩ | ⟨pos, b, hidx, hfind, hget⟩ := findIdx?_find?_cases p l
  · simp only [takeFirst, hidx, hfind]
    exact iff_of_true trivial hnone
  · simp only [takeFirst, hidx, hfind]
    refine iff_of_false nofun fun h => ?_
    have hb := h b (List.mem_of_getElem? hget)
    rw [List.find?_some hfind] at hb
    cases hb

theorem perm_cons_ne {l rest : List α} (h : l.Perm (a :: rest)) : rest ≠ l := by
  rintro rfl
  have hlength := h.length_eq
  rw [List.length_cons] at hlength
  omega

/-- Remove the entries with a property one after the other, from the front, and
return them in that order beside the rest. -/
def extract (p : α → Bool) : Nat → List α → List α × List α
  | 0, l => ([], l)
  | fuel + 1, l =>
      match l.findIdx? p, l.find? p with
      | some pos, some a =>
          let (removed, rest) := extract p fuel (swapRemove l pos)
          (a :: removed, rest)
      | _, _ => ([], l)

/-- With fuel for the whole list, the entries with the property are taken out and no
other. -/
theorem extract_spec {fuel : Nat} (hfuel : l.length ≤ fuel) :
    l.Perm ((extract p fuel l).1 ++ (extract p fuel l).2) ∧
      (∀ a ∈ (extract p fuel l).1, p a = true) ∧ ∀ a ∈ (extract p fuel l).2, p a = false := by
  induction fuel generalizing l with
  | zero =>
    rw [List.length_eq_zero_iff.mp (Nat.le_zero.mp hfuel)]
    simp [extract]
  | succ fuel ih =>
    obtain ⟨hidx, hfind, hnone⟩ | ⟨pos, a, hidx, hfind, hget⟩ := findIdx?_find?_cases p l
    · simpa [extract, hidx, hfind] using hnone
    · have hperm := perm_swapRemove hget
      have hlength := hperm.length_eq
      rw [List.length_cons] at hlength
      obtain ⟨hrest, htaken, hleft⟩ := ih (l := swapRemove l pos) (by omega)
      simp only [extract, hidx, hfind]
      refine ⟨hperm.trans (hrest.cons a), ?_, hleft⟩
      intro b hb
      rcases List.mem_cons.mp hb with rfl | hb
      · exact List.find?_some hfind
      · exact htaken b hb

theorem mem_extract_fst :
    a ∈ (extract p l.length l).1 ↔ a ∈ l.filter p := by
  obtain ⟨hperm, htaken, hleft⟩ := extract_spec (p := p) (Nat.le_refl l.length)
  rw [List.mem_filter, hperm.mem_iff, List.mem_append]
  constructor
  · intro ha
    exact ⟨.inl ha, htaken a ha⟩
  · rintro ⟨ha | ha, hp⟩
    · exact ha
    · rw [hleft a ha] at hp
      cases hp

theorem not_mem_extract_snd (ha : a ∈ (extract p l.length l).2) : p a = false :=
  (extract_spec (Nat.le_refl l.length)).2.2 a ha

/-- Removing behind an untouched front. -/
theorem swapRemove_append (front : List α) (a : α) (back : List α) :
    swapRemove (front ++ a :: back) front.length = front ++ swapRemove (a :: back) 0 := by
  obtain rfl | ⟨back, last, rfl⟩ := back.eq_nil_or_concat'
  · simp [swapRemove]
  · have hleft : ((front ++ a :: back) ++ [last]).set front.length last =
        (front ++ last :: back) ++ [last] := by
      rw [List.set_append_left _ _ (by simp), List.set_append_right _ _ (Nat.le_refl _)]
      simp
    have hright : ((a :: back) ++ [last]).set 0 last = (last :: back) ++ [last] := rfl
    rw [← List.cons_append, ← List.append_assoc]
    simp only [swapRemove, List.getLast?_append, List.getLast?_singleton, Option.some_or]
    rw [hleft, hright, List.dropLast_concat, List.dropLast_concat]

section Keyed

variable (key : α → κ)

variable {f : α → α}

theorem map_key_modifyFirst {p : α → Bool} (hkey : ∀ a, key (f a) = key a)
    (l : List α) : (modifyFirst p f l).map key = l.map key := by
  induction l with
  | nil => rfl
  | cons a rest ih =>
    rw [modifyFirst]
    split
    · simp [hkey]
    · simp [ih]

variable [DecidableEq κ]

/-- Looking up a key after updating the entry of another, or the same, key. -/
theorem find?_modifyFirst (hkey : ∀ a, key (f a) = key a) (l : List α) (k j : κ) :
    (modifyFirst (key · = k) f l).find? (key · = j) =
      if j = k then (l.find? (key · = j)).map f else l.find? (key · = j) := by
  induction l with
  | nil => simp [modifyFirst]
  | cons a rest ih =>
    rw [modifyFirst]
    by_cases hk : key a = k
    · simp only [hk, decide_true, if_true]
      by_cases hj : j = k
      · simp [hkey, hk, hj]
      · simp [hkey, hk, hj, Ne.symm hj]
    · simp only [hk, decide_false, Bool.false_eq_true, if_false]
      by_cases hj : key a = j
      · have hne : j ≠ k := fun h => hk (hj.trans h)
        simp [hj, hne]
      · simp only [List.find?_cons, hj, decide_false, ih]

/-- The entries of the other keys stay as they are. -/
theorem filter_modifyFirst (hkey : ∀ a, key (f a) = key a) (l : List α) (k : κ) :
    (modifyFirst (key · = k) f l).filter (key · ≠ k) = l.filter (key · ≠ k) := by
  induction l with
  | nil => rfl
  | cons a rest ih =>
    rw [modifyFirst]
    split
    · rename_i hk
      simp only [decide_eq_true_eq] at hk
      simp [hkey, hk]
    · simp only [List.filter_cons, ih]

/-- With distinct keys, updating the first match updates every match. -/
theorem modifyFirst_eq_map {l : List α} (hnodup : (l.map key).Nodup) (k : κ) :
    modifyFirst (key · = k) f l = l.map fun a => if key a = k then f a else a := by
  induction l with
  | nil => rfl
  | cons a rest ih =>
    rw [List.map_cons, List.nodup_cons] at hnodup
    by_cases ha : key a = k
    · have hrest : rest.map (fun b => if key b = k then f b else b) = rest := by
        conv_rhs => rw [← List.map_id rest]
        apply List.map_congr_left
        intro b hb
        rw [if_neg, id]
        intro hk
        exact hnodup.1 (ha.trans hk.symm ▸ List.mem_map_of_mem hb)
      simp [modifyFirst, ha, hrest]
    · simp [modifyFirst, ha, ih hnodup.2]

/-- With distinct keys an entry is the one found under its key. -/
theorem find?_of_mem {l : List α} (hnodup : (l.map key).Nodup) {a : α} (h : a ∈ l) :
    l.find? (key · = key a) = some a := by
  induction l with
  | nil => cases h
  | cons b rest ih =>
    rw [List.map_cons, List.nodup_cons] at hnodup
    obtain rfl | h := List.mem_cons.mp h
    · simp
    · have hne : key b ≠ key a := fun heq => hnodup.1 (heq ▸ List.mem_map_of_mem h)
      rw [List.find?_cons_of_neg (by simpa using hne)]
      exact ih hnodup.2 h

/-- Updating the first match of a test updates what is found under the match's key, if the
match is what is found there. -/
theorem find?_modifyFirst_of_first {p : α → Bool} (hkey : ∀ a, key (f a) = key a)
    {l : List α} {a : α} (hfirst : l.find? p = some a) (hfound : l.find? (key · = key a) = some a) :
    (modifyFirst p f l).find? (key · = key a) = some (f a) := by
  induction l with
  | nil => cases hfirst
  | cons b rest ih =>
    rw [modifyFirst]
    cases hp : p b with
    | true =>
      rw [List.find?_cons_of_pos hp] at hfirst
      cases hfirst
      simp [hkey]
    | false =>
      rw [List.find?_cons_of_neg (by simp [hp])] at hfirst
      by_cases hb : key b = key a
      · -- the entry under the key would be one that fails the test
        rw [List.find?_cons_of_pos (by simpa using hb)] at hfound
        cases hfound
        exact absurd (List.find?_some hfirst) (by simp [hp])
      · rw [List.find?_cons_of_neg (by simpa using hb)] at hfound
        simp only [Bool.false_eq_true, if_false]
        rw [List.find?_cons_of_neg (by simpa using hb)]
        exact ih hfirst hfound

/-- Entries related one by one are found under the same keys. -/
theorem forall₂_find? {R : α → α → Prop} (hkey : ∀ a b, R a b → key b = key a) {l l' : List α}
    (h : List.Forall₂ R l l') (j : κ) :
    Option.Rel R (l.find? (key · = j)) (l'.find? (key · = j)) := by
  induction h with
  | nil => exact .none
  | @cons a b rest rest' hR _ ih =>
    by_cases hj : key a = j
    · simpa [List.find?_cons, hj, hkey a b hR] using hR
    · simpa [List.find?_cons, hj, hkey a b hR] using ih

end Keyed

end KazuOS.Lib
