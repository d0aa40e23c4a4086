import KazuOS.Lib.Run
import Mathlib.Data.UInt

/-! Tables whose slots are reused. A freed slot keeps its place and its generation; an
insertion takes the first free slot and raises its generation, or adds a slot. -/
namespace KazuOS.Lib

structure Slot (α : Type) where
  generation : UInt32
  node : Option α
  deriving DecidableEq, Repr

abbrev Arena (α : Type) := List (Slot α)

namespace Arena

variable {α : Type}

/-- The first slot with a node that passes a test: its position, generation and node. -/
def position (p : α → Bool) : Arena α → Option (Nat × UInt32 × α)
  | [] => none
  | ⟨generation, some a⟩ :: rest =>
      if p a then some (0, generation, a)
      else (position p rest).map fun (i, found) => (i + 1, found)
  | ⟨_, none⟩ :: rest => (position p rest).map fun (i, found) => (i + 1, found)

def insert : Arena α → α → (Nat × UInt32) × Arena α
  | [], a => ((0, 0), [⟨0, some a⟩])
  | ⟨generation, none⟩ :: rest, a => ((0, generation + 1), ⟨generation + 1, some a⟩ :: rest)
  | slot :: rest, a =>
      let ((i, generation), rest) := insert rest a
      ((i + 1, generation), slot :: rest)

/-- The node a position and a generation refer to. -/
def live (slots : Arena α) (i : Nat) (generation : UInt32) : Option α :=
  match slots[i]? with
  | some slot => if slot.generation ≠ generation then none else slot.node
  | none => none

/-- Replace the node of a slot and leave its generation. -/
def put (slots : Arena α) (i : Nat) (node : Option α) : Arena α :=
  slots.modify i fun slot => { slot with node }

def nodes (slots : Arena α) : List α := slots.filterMap (·.node)

@[simp] theorem nodes_nil : nodes ([] : Arena α) = [] := rfl

@[simp] theorem nodes_cons (slot : Slot α) (rest : Arena α) :
    nodes (slot :: rest) = slot.node.toList ++ nodes rest := by
  cases h : slot.node with
  | none => simp [nodes, h]
  | some a => simp [nodes, h]

@[simp] theorem nodes_append (slots slots' : Arena α) :
    nodes (slots ++ slots') = slots.nodes ++ nodes slots' := List.filterMap_append

variable {slots : Arena α} {i : Nat} {a : α}

theorem mem_nodes :
    a ∈ slots.nodes ↔ ∃ (i : Nat) (generation : UInt32), slots[i]? = some ⟨generation, some a⟩ := by
  simp only [nodes, List.mem_filterMap]
  constructor
  · rintro ⟨⟨generation, node⟩, hslot, rfl⟩
    obtain ⟨i, hi⟩ := List.mem_iff_getElem?.mp hslot
    exact ⟨i, generation, hi⟩
  · rintro ⟨i, generation, hi⟩
    exact ⟨_, List.mem_of_getElem? hi, rfl⟩

/-! Searching. -/

theorem position_cons (p : α → Bool) (slot : Slot α) (rest : Arena α) :
    position p (slot :: rest) =
      match slot.node.filter p with
      | some a => some (0, slot.generation, a)
      | none => (position p rest).map fun (i, found) => (i + 1, found) := by
  obtain ⟨generation, node⟩ := slot
  cases node with
  | none => rfl
  | some a =>
    simp only [position, Option.filter_some]
    split
    · rfl
    · rfl

variable {generation : UInt32} {p : α → Bool}

theorem position_eq_some (h : position p slots = some (i, generation, a)) :
    slots[i]? = some ⟨generation, some a⟩ ∧ p a = true := by
  induction slots generalizing i with
  | nil => cases h
  | cons slot rest ih =>
    rw [position_cons] at h
    split at h
    · rename_i b hb
      cases h
      obtain ⟨hnode, hp⟩ := Option.filter_eq_some_iff.mp hb
      exact ⟨by rw [← hnode]; rfl, hp⟩
    · obtain ⟨⟨j, found⟩, hfound, heq⟩ := Option.map_eq_some_iff.mp h
      cases heq
      exact ⟨(ih hfound).1, (ih hfound).2⟩

theorem position_node (p : α → Bool) (slots : Arena α) :
    (position p slots).map (·.2.2) = slots.nodes.find? p := by
  induction slots with
  | nil => rfl
  | cons slot rest ih =>
    rw [position_cons, nodes_cons]
    obtain ⟨generation, node⟩ := slot
    have hlater : (Option.map (fun x : Nat × UInt32 × α => (x.1 + 1, x.2)) (position p rest)).map
        (·.2.2) = (nodes rest).find? p := by
      rw [Option.map_map]
      exact ih
    cases node with
    | none => exact hlater
    | some a =>
      simp only [Option.filter_some, Option.toList_some, List.singleton_append]
      cases ha : p a with
      | true => simp [ha]
      | false =>
        simp only [Bool.false_eq_true, if_false, List.find?_cons, ha]
        exact hlater

theorem position_eq_none :
    position p slots = none ↔ ∀ a ∈ slots.nodes, p a = false := by
  rw [← Option.map_eq_none_iff (f := (·.2.2)), position_node, List.find?_eq_none]
  simp

/-- Nodes with different keys are in different slots. -/
theorem slot_unique {κ : Type} {key : α → κ} (hnodup : (slots.nodes.map key).Nodup)
    {i j : Nat} {g g' : UInt32} {a b : α} (hi : slots[i]? = some ⟨g, some a⟩)
    (hj : slots[j]? = some ⟨g', some b⟩) (hkey : key a = key b) : i = j := by
  induction slots generalizing i j with
  | nil => cases hi
  | cons slot rest ih =>
    rw [nodes_cons, List.map_append, List.nodup_append] at hnodup
    obtain ⟨-, hrest, hdisjoint⟩ := hnodup
    have hapart : ∀ (c : α) (k : Nat) g c', slot.node = some c → rest[k]? = some ⟨g, some c'⟩ →
        key c ≠ key c' := by
      intro c k g c' hc hc'
      apply hdisjoint
      · simp [hc]
      · exact List.mem_map_of_mem (mem_nodes.mpr ⟨k, g, hc'⟩)
    cases i with
    | zero =>
      cases j with
      | zero => rfl
      | succ j =>
        cases hi
        exact absurd hkey (hapart a j g' b rfl hj)
    | succ i =>
      cases j with
      | zero =>
        cases hj
        exact absurd hkey.symm (hapart b i g a rfl hi)
      | succ j => exact congrArg _ (ih hrest hi hj)

/-! Changing one slot. -/

theorem live_eq_some :
    slots.live i generation = some a ↔ slots[i]? = some ⟨generation, some a⟩ := by
  unfold live
  cases slots[i]? with
  | none => simp
  | some slot =>
    obtain ⟨g, node⟩ := slot
    by_cases hg : g = generation
    · simp [hg]
    · simp [hg]

/-- Whatever a slot held makes room for what it is given; the others keep their nodes. -/
theorem nodes_put {slot : Slot α} (h : slots[i]? = some slot) :
    ∃ others, slots.nodes.Perm (slot.node.toList ++ others) ∧
      ∀ node, (slots.put i node).nodes.Perm (node.toList ++ others) := by
  induction slots generalizing i with
  | nil => cases h
  | cons first rest ih =>
    cases i with
    | zero =>
      cases h
      exact ⟨nodes rest, by simp, fun node => by simp [put]⟩
    | succ i =>
      obtain ⟨others, hbefore, hafter⟩ := ih h
      refine ⟨first.node.toList ++ others, ?_, ?_⟩
      · rw [nodes_cons]
        exact (hbefore.append_left _).trans (List.perm_append_comm_assoc _ _ _)
      · intro node
        have hput : put (first :: rest) (i + 1) node = first :: put rest i node := rfl
        rw [hput, nodes_cons]
        exact ((hafter node).append_left _).trans (List.perm_append_comm_assoc _ _ _)

theorem getElem?_put (slots : Arena α) (i : Nat) (node : Option α) (j : Nat) :
    (slots.put i node)[j]? =
      if i = j then slots[j]?.map fun slot => { slot with node } else slots[j]? := by
  unfold put
  rw [List.getElem?_modify]
  split
  · rfl
  · simp

theorem nodes_insert (slots : Arena α) (a : α) :
    (slots.insert a).2.nodes.Perm (a :: slots.nodes) := by
  fun_induction insert slots a with
  | case1 a => simp
  | case2 generation rest a => simp
  | case3 slot rest a _ i generation rest' hinsert ih =>
    rw [hinsert] at ih
    simp only [nodes_cons]
    exact (ih.append_left _).trans List.perm_middle

/-- An insertion reuses a free slot under the next generation, or adds a slot. -/
theorem insert_slot (slots : Arena α) (a : α) :
    (slots.insert a).2[(slots.insert a).1.1]? = some ⟨(slots.insert a).1.2, some a⟩ ∧
      (∀ j, j ≠ (slots.insert a).1.1 → (slots.insert a).2[j]? = slots[j]?) ∧
      ((∃ generation, slots[(slots.insert a).1.1]? = some ⟨generation, none⟩ ∧
          (slots.insert a).1.2 = generation + 1) ∨
        (slots.insert a).1 = (slots.length, 0) ∧ ∀ slot ∈ slots, slot.node ≠ none) := by
  fun_induction insert slots a with
  | case1 a =>
    refine ⟨rfl, ?_, .inr ⟨rfl, by simp⟩⟩
    intro j hj
    simp [hj]
  | case2 generation rest a =>
    refine ⟨rfl, ?_, .inl ⟨generation, rfl, rfl⟩⟩
    intro j hj
    cases j with
    | zero => exact absurd rfl hj
    | succ j => rfl
  | case3 slot rest a hfull i generation rest' hinsert ih =>
    rw [hinsert] at ih
    obtain ⟨hnew, hother, hreuse⟩ := ih
    refine ⟨hnew, ?_, ?_⟩
    · intro j hj
      cases j with
      | zero => rfl
      | succ j => exact hother j (by simpa using hj)
    · obtain hreuse | ⟨hend, hall⟩ := hreuse
      · exact .inl hreuse
      · refine .inr ⟨?_, ?_⟩
        · obtain ⟨rfl, rfl⟩ := Prod.mk.inj hend
          rfl
        · intro s hs
          obtain rfl | hs := List.mem_cons.mp hs
          · intro hnone
            exact hfull s.generation (by rw [← hnone])
          · exact hall s hs

end Arena

end KazuOS.Lib
