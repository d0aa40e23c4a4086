import KazuOS.Kernel.ShmRanges

/-! The search for a free range of shared memory: it ends, and what it finds is the lowest. -/
namespace KazuOS.Shm

open KazuOS.Kernel KazuOS.Memory

/-- Two ranges of addresses meet. -/
def Meets (virt size : Nat) (range : Mapping × Nat) : Prop :=
  virt < range.1.virt.toNat + range.2 ∧ range.1.virt.toNat < virt + size

/-- A place for `size` bytes: in the window, on a page boundary, clear of the mappings of the
process and of every page that is mapped. -/
structure Fits (objects : List Shm) (vm : Vmm) (pid : Nat) (cr3 : BitVec 64) (size virt : Nat) :
    Prop where
  aligned : virt % 4096 = 0
  low : userShmBase ≤ virt
  high : virt + size ≤ userShmLimit
  clear : ∀ range ∈ ranges objects, range.1.pid = pid → ¬Meets virt size range
  unmapped : ∀ i < divCeil size 4096,
    vm.translate cr3 (BitVec.ofNat 64 (virt + i * 4096)) = none

/-- What the search should answer. -/
structure Finds (objects : List Shm) (vm : Vmm) (pid : Nat) (cr3 : BitVec 64) (size : Nat)
    (answer : Option (BitVec 64)) : Prop where
  lowest : ∀ virt, answer = some virt → Fits objects vm pid cr3 size virt.toNat ∧
    ∀ v < virt.toNat, ¬Fits objects vm pid cr3 size v
  complete : answer = none ↔ ∀ v, ¬Fits objects vm pid cr3 size v

variable {objects : List Shm} {vm : Vmm} {pid size : Nat} {cr3 : BitVec 64}

theorem overlapEnd_none {candidate stop : Nat} {ranges : List (Mapping × Nat)}
    {next : Option Nat} (h : overlapEnd pid candidate stop ranges next = some none) :
    next = none ∧ ∀ range ∈ ranges, range.1.pid = pid →
      ¬(candidate < range.1.virt.toNat + range.2 ∧ range.1.virt.toNat < stop) := by
  induction ranges generalizing next with
  | nil => exact ⟨Option.some.inj h, fun _ hmem => (by cases hmem)⟩
  | cons range ranges ih =>
    obtain ⟨m, mappedSize⟩ := range
    simp only [overlapEnd] at h
    split at h
    · rename_i hother
      obtain ⟨hnext, hrest⟩ := ih h
      exact ⟨hnext, List.forall_mem_cons.mpr ⟨fun hpid => absurd hpid hother, hrest⟩⟩
    · split at h
      · cases h
      · split at h
        · cases (ih h).1
        · rename_i hmiss
          obtain ⟨hnext, hrest⟩ := ih h
          exact ⟨hnext, List.forall_mem_cons.mpr ⟨fun _ => hmiss, hrest⟩⟩

/-- From a candidate that is close enough to the limit the loop returns, and the rounds that are
left make no difference. -/
theorem findFrom_ends (hsize : 0 < size) {fuel rounds candidate : Nat}
    (hfuel : userShmLimit ≤ candidate + fuel) (hrounds : userShmLimit ≤ candidate + rounds) :
    ∃ answer, findFrom objects vm pid cr3 size (fuel + 1) candidate = some answer ∧
      findFrom objects vm pid cr3 size (rounds + 1) candidate = some answer := by
  induction fuel generalizing candidate rounds with
  | zero =>
    have hstop : 2 ^ 64 ≤ candidate + size ∨ userShmLimit < candidate + size := by omega
    simp only [findFrom, if_pos hstop]
    exact ⟨none, rfl, rfl⟩
  | succ fuel ih =>
    unfold findFrom
    dsimp only
    split
    · exact ⟨none, rfl, rfl⟩
    obtain ⟨rounds, rfl⟩ := Nat.exists_eq_add_of_le' (show 1 ≤ rounds by omega)
    cases hnext : overlapEnd pid candidate (candidate + size) (ranges objects) none with
    | none => exact ⟨none, rfl, rfl⟩
    | some next =>
      cases next with
      | some value =>
        have hgrows : candidate < value :=
          overlapEnd_end (fun _ _ _ hlt _ => hlt) (fun _ hv => by cases hv) hnext
        exact ih (by omega) (by omega)
      | none =>
        dsimp only
        split
        · split
          · exact ⟨none, rfl, rfl⟩
          · exact ih (by omega) (by omega)
        · exact ⟨_, rfl, rfl⟩

/-- No mapping of the process runs over the end of the 64 bits. -/
def NoneWraps (objects : List Shm) (pid : Nat) : Prop :=
  ∀ range ∈ ranges objects, range.1.pid = pid → range.1.virt.toNat + range.2 < 2 ^ 64

theorem overlapEnd_isSome_iff (candidate stop : Nat) {rs : List (Mapping × Nat)}
    (next : Option Nat) : (overlapEnd pid candidate stop rs next).isSome ↔
      ∀ range ∈ rs, range.1.pid = pid → range.1.virt.toNat + range.2 < 2 ^ 64 := by
  induction rs generalizing next with
  | nil => simp [overlapEnd]
  | cons range rest ih =>
    rw [List.forall_mem_cons, overlapEnd]
    dsimp only
    split
    · rename_i hpid
      rw [ih]
      exact ⟨fun h => ⟨fun heq => absurd heq hpid, h⟩, fun h => h.2⟩
    · rename_i hpid
      split
      · rename_i hwraps
        exact iff_of_false Bool.false_ne_true fun h => absurd (h.1 (not_not.mp hpid)) (by omega)
      · split <;> rw [ih] <;> exact ⟨fun h => ⟨fun _ => by omega, h⟩, fun h => h.2⟩

theorem size_of_mem_ranges {range : Mapping × Nat} (h : range ∈ ranges objects) :
    range.2 % 4096 = 0 := by
  obtain ⟨shm, -, hmem⟩ := List.mem_flatMap.mp h
  obtain ⟨mapping, -, rfl⟩ := List.mem_map.mp hmem
  exact Nat.mul_mod_left _ _

theorem finds_none {candidate : Nat} (hbefore : ∀ v < candidate, ¬Fits objects vm pid cr3 size v)
    (hstop : userShmLimit < candidate + size) : Finds objects vm pid cr3 size none := by
  refine ⟨nofun, iff_of_true rfl fun v hfits => ?_⟩
  have hhigh := hfits.high
  exact hbefore v (by omega) hfits

/-- A jump passes over no place: a mapping that ends at `value` meets every range that starts
between the candidate and its end. -/
theorem not_fits_of_overlap (haligned : ∀ range ∈ ranges objects, range.1.virt.toNat % 4096 = 0)
    {candidate value : Nat}
    (hnext : overlapEnd pid candidate (candidate + size) (ranges objects) none = some (some value)) :
    candidate < value ∧ value % 4096 = 0 ∧
      ∀ v, candidate ≤ v → v < value → ¬Fits objects vm pid cr3 size v := by
  refine overlapEnd_end (P := fun value => candidate < value ∧ value % 4096 = 0 ∧
    ∀ v, candidate ≤ v → v < value → ¬Fits objects vm pid cr3 size v) ?_
    (fun _ hv => by cases hv) hnext
  intro range hrange hpid hlt hvirt
  have hvirtPage := haligned range hrange
  have hsizePage := size_of_mem_ranges hrange
  refine ⟨hlt, by omega, fun v hv hend hfits => ?_⟩
  exact hfits.clear range hrange hpid ⟨hend, by omega⟩

/-- Neither does a step of one page: only the candidate itself starts in it. -/
theorem not_fits_of_mapped {candidate : Nat} (hpage : candidate % 4096 = 0)
    (hmapped : ((List.range (divCeil size 4096)).any fun i =>
      (vm.translate cr3 (BitVec.ofNat 64 (candidate + i * 4096))).isSome) = true)
    (v : Nat) (hv : candidate ≤ v) (hend : v < candidate + 4096) :
    ¬Fits objects vm pid cr3 size v := by
  intro hfits
  have hvpage := hfits.aligned
  obtain rfl : v = candidate := by omega
  obtain ⟨i, hi, hsome⟩ := List.any_eq_true.mp hmapped
  rw [hfits.unmapped i (List.mem_range.mp hi)] at hsome
  cases hsome

/-- The rounds pass over no place: what lies before the candidate does not fit. -/
theorem findFrom_finds (haligned : ∀ range ∈ ranges objects, range.1.virt.toNat % 4096 = 0)
    (hwraps : NoneWraps objects pid) (hsize : 0 < size) {fuel candidate : Nat}
    (hpage : candidate % 4096 = 0) (hlow : userShmBase ≤ candidate)
    (hbefore : ∀ v < candidate, ¬Fits objects vm pid cr3 size v)
    (hfuel : userShmLimit ≤ candidate + fuel) :
    ∃ answer, findFrom objects vm pid cr3 size (fuel + 1) candidate = some answer ∧
      Finds objects vm pid cr3 size answer := by
  have hlimit : userShmLimit < 2 ^ 48 := by decide
  induction fuel generalizing candidate with
  | zero =>
    have hstop : 2 ^ 64 ≤ candidate + size ∨ userShmLimit < candidate + size := by omega
    rw [findFrom, if_pos hstop]
    exact ⟨none, rfl, finds_none hbefore (by omega)⟩
  | succ fuel ih =>
    rw [findFrom]
    split
    · exact ⟨none, rfl, finds_none hbefore (by omega)⟩
    rename_i hstop
    have hpasses : ∀ {value : Nat}, (∀ v, candidate ≤ v → v < value →
        ¬Fits objects vm pid cr3 size v) → ∀ v < value, ¬Fits objects vm pid cr3 size v :=
      fun hbetween v hv => (Nat.lt_or_ge v candidate).elim (hbefore v) (hbetween v · hv)
    have hsome := (overlapEnd_isSome_iff candidate (candidate + size) none).mpr hwraps
    cases hnext : overlapEnd pid candidate (candidate + size) (ranges objects) none with
    | none =>
      rw [hnext] at hsome
      cases hsome
    | some next =>
      cases next with
      | some value =>
        obtain ⟨hgrows, hends, hbetween⟩ := not_fits_of_overlap haligned hnext
        exact ih hends (by omega) (hpasses hbetween) (by omega)
      | none =>
        dsimp only
        split
        · rename_i hmapped
          rw [if_neg (by omega)]
          exact ih (by omega) (by omega) (hpasses (not_fits_of_mapped hpage hmapped)) (by omega)
        · rename_i hfree
          have hval : (BitVec.ofNat 64 candidate).toNat = candidate := by
            rw [BitVec.toNat_ofNat, Nat.mod_eq_of_lt (by omega)]
          have hfits : Fits objects vm pid cr3 size candidate := by
            refine ⟨hpage, hlow, by omega, (overlapEnd_none hnext).2, ?_⟩
            simpa using hfree
          refine ⟨_, rfl, ?_, iff_of_false (by simp) fun hnone => hnone candidate hfits⟩
          rintro virt ⟨⟩
          rw [hval]
          exact ⟨hfits, hbefore⟩

/-- In the first round every mapping is looked at. -/
theorem findFreeRange_of_wraps (hwraps : ¬NoneWraps objects pid) (vm : Vmm) (cr3 : BitVec 64)
    (size : Nat) : findFreeRange objects vm pid cr3 size = none := by
  rw [findFreeRange, findFrom]
  split
  · rfl
  cases hnext : overlapEnd pid userShmBase (userShmBase + size) (ranges objects) none with
  | none => rfl
  | some next =>
    have hnone := (overlapEnd_isSome_iff userShmBase (userShmBase + size) none).mp
      (Option.isSome_iff_exists.mpr ⟨next, hnext⟩)
    exact absurd hnone hwraps

/-- The search ends. A mapping of the process that runs over the end of the 64 bits makes it
give up, wherever there is room; without one it answers with the lowest place. -/
theorem find_free_range_iff (haligned : ∀ range ∈ ranges objects, range.1.virt.toNat % 4096 = 0)
    (hsize : 0 < size) (vm : Vmm) (pid : Nat) (cr3 : BitVec 64) :
    (∀ fuel, userShmLimit < fuel → findFrom objects vm pid cr3 size fuel userShmBase =
      some (findFreeRange objects vm pid cr3 size)) ∧
    (Finds objects vm pid cr3 size (findFreeRange objects vm pid cr3 size) ↔
      NoneWraps objects pid ∨ ∀ v, ¬Fits objects vm pid cr3 size v) := by
  have hwindow : userShmBase < userShmLimit := by decide
  constructor
  · intro fuel hfuel
    obtain ⟨fuel, rfl⟩ := Nat.exists_eq_add_of_le' (show 1 ≤ fuel by omega)
    obtain ⟨answer, hanswer, hsame⟩ := @findFrom_ends objects vm pid size cr3 hsize fuel
      (userShmLimit - userShmBase) userShmBase (by omega) (by omega)
    rw [findFreeRange, hanswer, hsame]
    rfl
  · by_cases hwraps : NoneWraps objects pid
    · refine iff_of_true ?_ (.inl hwraps)
      have hbefore : ∀ v < userShmBase, ¬Fits objects vm pid cr3 size v :=
        fun v hv hfits => absurd hfits.low (Nat.not_le.mpr hv)
      obtain ⟨answer, hanswer, hfinds⟩ := @findFrom_finds objects vm pid size cr3 haligned hwraps hsize
        (userShmLimit - userShmBase) userShmBase (by decide) (Nat.le_refl _) hbefore (by omega)
      rw [findFreeRange, hanswer]
      exact hfinds
    · have hnone := findFreeRange_of_wraps hwraps vm cr3 size
      rw [hnone]
      exact ⟨fun h => .inr (h.complete.mp rfl),
        fun h => ⟨nofun, iff_of_true rfl (h.resolve_left hwraps)⟩⟩

/-- Tables in which nothing is mapped. -/
def blankTables : Vmm := ⟨fun _ _ => 0, 0x1000, []⟩

/-- An object of one page that process 1 has mapped at some address. -/
def onePage (virt : BitVec 64) : List Shm := [⟨1, 1, [0xc000], [1], [⟨1, virt⟩]⟩]

/-- Behind a mapping at the start of the window there is room for more. -/
theorem find_free_range_iff_second :
    Finds (onePage 0xb000000000) blankTables 1 0x2000 4096
      (findFreeRange (onePage 0xb000000000) blankTables 1 0x2000 4096) :=
  ((find_free_range_iff (by decide) (by decide) blankTables 1 0x2000).2).mpr (.inl (by
    intro range hrange _
    obtain rfl := List.mem_singleton.mp hrange
    decide))

/-- The whole window is free, but a page at the other end of the address space is mapped. -/
theorem last_page_stops_search :
    findFreeRange (onePage 0xfffffffffffff000) blankTables 1 0x2000 4096 = none ∧
      Fits (onePage 0xfffffffffffff000) blankTables 1 0x2000 4096 0xb000000000 := by
  refine ⟨by decide, by decide, by decide, by decide, ?_, ?_⟩
  · intro range hrange _
    obtain rfl := List.mem_singleton.mp hrange
    rintro ⟨-, hlt⟩
    revert hlt
    decide
  · intro i _
    simp [blankTables, Vmm.translate, Vmm.tableIfPresent]

end KazuOS.Shm
