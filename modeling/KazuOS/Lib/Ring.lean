import Mathlib.Data.List.Basic

/-! A ring of `n` cells between two indices. The writer advances `head` and the reader
`tail`; one cell stays free, so that equal indices mean an empty ring. -/
namespace KazuOS.Lib

/-- How many cells lie between the indices. -/
def ringCount (n head tail : Nat) : Nat :=
  if tail ≤ head then head - tail else head + n - tail

/-- What the ring holds, oldest first. -/
def ringContents (n : Nat) (buf : Nat → α) (head tail : Nat) : List α :=
  (List.range (ringCount n head tail)).map fun i => buf ((tail + i) % n)

variable {n head tail : Nat} {buf : Nat → α}

theorem succ_mod_of_lt (h : head < n) : (head + 1) % n = if head + 1 = n then 0 else head + 1 := by
  split
  · rename_i heq
    rw [heq, Nat.mod_self]
  · exact Nat.mod_eq_of_lt (by omega)

/-- With one wrap at most, the cell at an offset from the tail. -/
theorem ring_index {i : Nat} (htail : tail < n) (hi : i < n) :
    (tail + i) % n = if tail + i < n then tail + i else tail + i - n := by
  split
  · rename_i hlt
    exact Nat.mod_eq_of_lt hlt
  · rw [Nat.mod_eq_sub_mod (by omega)]
    exact Nat.mod_eq_of_lt (by omega)

theorem ringCount_lt (hhead : head < n) (htail : tail < n) : ringCount n head tail < n := by
  unfold ringCount
  split <;> omega

theorem ringContents_eq_nil_iff (htail : tail < n) :
    ringContents n buf head tail = [] ↔ head = tail := by
  rw [ringContents, List.map_eq_nil_iff, List.range_eq_nil, ringCount]
  split <;> omega

/-- The writer's cell lies right behind the contents. -/
theorem ring_index_count (hhead : head < n) (htail : tail < n) :
    (tail + ringCount n head tail) % n = head := by
  rw [ring_index htail (ringCount_lt hhead htail), ringCount]
  split <;> split <;> omega

theorem ringCount_push (hhead : head < n) (htail : tail < n) (hroom : (head + 1) % n ≠ tail) :
    ringCount n ((head + 1) % n) tail = ringCount n head tail + 1 := by
  rw [succ_mod_of_lt hhead] at hroom ⊢
  unfold ringCount
  by_cases hwrap : head + 1 = n
  · rw [if_pos hwrap] at hroom ⊢
    split <;> split <;> omega
  · rw [if_neg hwrap] at hroom ⊢
    split <;> split <;> omega

theorem ringCount_pop (hhead : head < n) (htail : tail < n) (hne : head ≠ tail) :
    ringCount n head tail = ringCount n head ((tail + 1) % n) + 1 := by
  rw [succ_mod_of_lt htail]
  unfold ringCount
  by_cases hwrap : tail + 1 = n
  · rw [if_pos hwrap]
    split <;> split <;> omega
  · rw [if_neg hwrap]
    split <;> split <;> omega

/-- Writing while there is room appends. -/
theorem ringContents_push (hhead : head < n) (htail : tail < n) (hroom : (head + 1) % n ≠ tail)
    (a : α) :
    ringContents n (Function.update buf head a) ((head + 1) % n) tail =
      ringContents n buf head tail ++ [a] := by
  have hlast := ring_index_count hhead htail
  rw [ringContents, ringCount_push hhead htail hroom, List.range_succ, List.map_append,
    List.map_singleton, hlast, Function.update_self]
  congr 1
  apply List.map_congr_left
  intro i hi
  rw [List.mem_range] at hi
  -- an offset within the contents does not reach the writer's cell
  have hcount := ringCount_lt hhead htail
  have hcell : (tail + i) % n ≠ head := by
    rw [ring_index htail (by omega)]
    unfold ringCount at hi
    split at hi <;> split <;> omega
  exact Function.update_of_ne hcell a buf

/-- Reading takes the oldest. -/
theorem ringContents_pop (hhead : head < n) (htail : tail < n) (hne : head ≠ tail) :
    ringContents n buf head tail = buf tail :: ringContents n buf head ((tail + 1) % n) := by
  rw [ringContents, ringCount_pop hhead htail hne, List.range_succ_eq_map, List.map_cons,
    List.map_map, Nat.add_zero, Nat.mod_eq_of_lt htail, ringContents]
  congr 1
  apply List.map_congr_left
  intro i _
  simp only [Function.comp_apply, Nat.mod_add_mod, Nat.succ_eq_add_one]
  rw [Nat.add_right_comm, Nat.add_assoc]

end KazuOS.Lib
