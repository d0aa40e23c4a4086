import KazuOS.Kernel.Shm
import KazuOS.Memory.Pages

/-! Ranges of pages for shared memory: how a free one is found, and what the loops that
map and unmap one do to the pages of an address space. -/
namespace KazuOS

open KazuOS.Kernel KazuOS.Memory KazuOS.Memory.AddressSpaces

/-! The search. -/

section Search

/-- The next candidate is the end of a mapping that the range meets. -/
theorem Shm.overlapEnd_end {pid candidate stop value : Nat} {P : Nat → Prop}
    {ranges : List (Mapping × Nat)} {next : Option Nat}
    (hends : ∀ range ∈ ranges, range.1.pid = pid → candidate < range.1.virt.toNat + range.2 →
      range.1.virt.toNat < stop → P (range.1.virt.toNat + range.2))
    (hnext : ∀ v, next = some v → P v)
    (h : Shm.overlapEnd pid candidate stop ranges next = some (some value)) : P value := by
  induction ranges generalizing next with
  | nil => exact hnext value (Option.some.inj h)
  | cons range rest ih =>
    have hrest := fun r hr => hends r (List.mem_cons_of_mem range hr)
    unfold Shm.overlapEnd at h
    dsimp only at h
    split at h
    · exact ih hrest hnext h
    rename_i hpid
    split at h
    · cases h
    split at h
    · rename_i hmeets
      apply ih hrest _ h
      intro v hv
      have hend := hends range List.mem_cons_self (not_not.mp hpid) hmeets.1 hmeets.2
      cases next with
      | none => exact Option.some.inj hv ▸ hend
      | some old =>
        -- the greater of two ends is one of them
        obtain rfl : max old (range.1.virt.toNat + range.2) = v := Option.some.inj hv
        rcases max_choice old (range.1.virt.toNat + range.2) with hmax | hmax
        · rw [hmax]
          exact hnext old rfl
        · rw [hmax]
          exact hend
    · exact ih hrest hnext h

variable {objects : List Shm} {vm : Vmm} {pid size : Nat} {cr3 : BitVec 64}

/-- The last round of the search for a range. -/
structure Shm.Found (objects : List Shm) (vm : Vmm) (pid : Nat) (cr3 : BitVec 64) (size : Nat)
    (virt : BitVec 64) : Prop where
  low : userShmBase ≤ virt.toNat
  high : virt.toNat + size ≤ userShmLimit
  missed : Shm.overlapEnd pid virt.toNat (virt.toNat + size) (Shm.ranges objects) none = some none
  free : ∀ i, i < divCeil size 4096 →
    vm.translate cr3 (virt + BitVec.ofNat 64 (i * 4096)) = none

theorem Shm.findFrom_found {fuel candidate : Nat} (hlow : userShmBase ≤ candidate)
    {virt : BitVec 64} (h : Shm.findFrom objects vm pid cr3 size fuel candidate = some (some virt)) :
    Shm.Found objects vm pid cr3 size virt := by
  induction fuel generalizing candidate with
  | zero => cases h
  | succ fuel ih =>
    rw [Shm.findFrom] at h
    split at h
    · cases h
    rename_i hstop
    split at h
    · cases h
    · rename_i value hvalue
      have hnext : candidate < value :=
        Shm.overlapEnd_end (fun _ _ _ hlt _ => hlt) (fun _ hv => by cases hv) hvalue
      exact ih (by omega) h
    · rename_i hmissed
      split at h
      · split at h
        · cases h
        · exact ih (by omega) h
      · rename_i hnone
        obtain rfl := Option.some.inj (Option.some.inj h)
        have hval : (BitVec.ofNat 64 candidate).toNat = candidate := by
          rw [BitVec.toNat_ofNat, Nat.mod_eq_of_lt (by omega)]
        refine ⟨by rwa [hval], by rw [hval]; omega, by rwa [hval], ?_⟩
        intro i hi
        rw [← BitVec.ofNat_add]
        simp only [List.any_eq_true, List.mem_range, not_exists, not_and,
          Option.not_isSome_iff_eq_none] at hnone
        exact hnone i hi

theorem Shm.findFreeRange_found {virt : BitVec 64}
    (h : Shm.findFreeRange objects vm pid cr3 size = some virt) :
    Shm.Found objects vm pid cr3 size virt :=
  Shm.findFrom_found (Nat.le_refl _) (Option.join_eq_some_iff.mp h)

end Search

/-! The loops. -/

section Loops

variable {roots : List (BitVec 64)} {vm : Vmm} {pages : Pages} {cr3 virt : BitVec 64}

/-- A run of pages in the window. -/
structure InWindow (virt : BitVec 64) (count : Nat) : Prop where
  low : userShmBase ≤ virt.toNat
  high : virt.toNat + count * 4096 ≤ userShmLimit

theorem InWindow.userRange {count : Nat} (h : InWindow virt count) : UserRange virt count := by
  have hlow := h.low
  have hhigh := h.high
  unfold userShmBase at hlow
  unfold userShmLimit at hhigh
  exact ⟨by omega, by omega⟩

/-- A page that is not translated is mapped to nothing. -/
theorem pages_eq_none (h : Shows roots vm pages) (hroot : cr3 &&& addrMask ∈ roots) {count i : Nat}
    (hrange : UserRange virt count) (hi : i < count)
    (hnone : vm.translate cr3 (virt + BitVec.ofNat 64 (i * 4096)) = none) :
    pages (cr3 &&& addrMask) (virt.toNat / 4096 + i) = none := by
  have hpage := h.cr3_eq hroot (hrange.user hi)
  rw [hnone, hrange.page_eq hi] at hpage
  exact hpage.symm

theorem shows_unmapPages (h : Shows roots vm pages) (hroot : cr3 &&& addrMask ∈ roots)
    {count : Nat} (hrange : UserRange virt count) :
    Shows roots (unmapPages vm cr3 virt count)
      (pages.fill (cr3 &&& addrMask) (virt.toNat / 4096) (List.replicate count none)) := by
  induction count with
  | zero =>
    rw [List.replicate_zero, Pages.fill_nil]
    exact h
  | succ count ih =>
    have hstep := (ih (hrange.mono (Nat.le_succ count))).unmapPage hroot
      (hrange.user (Nat.lt_succ_self count))
    rw [hrange.page_eq (Nat.lt_succ_self count)] at hstep
    have hfill := Pages.fill_concat pages (cr3 &&& addrMask) (virt.toNat / 4096)
      (List.replicate count none) none
    rw [List.length_replicate, ← List.replicate_succ'] at hfill
    rw [unmapPages, List.range_succ, List.foldl_append, ← hfill]
    exact hstep

theorem shows_unmapRange (h : Shows roots vm pages) (hroot : cr3 &&& addrMask ∈ roots)
    {count : Nat} (hrange : UserRange virt count) :
    Shows roots (unmapRange vm cr3 virt (count * 4096))
      (pages.fill (cr3 &&& addrMask) (virt.toNat / 4096) (List.replicate count none)) := by
  rw [unmapRange, divCeil_pages]
  exact shows_unmapPages h hroot hrange

theorem toNat_mappable {frame : Nat} (haligned : frame % 4096 = 0) (hlt : frame < 2 ^ 52) :
    (BitVec.ofNat 64 frame &&& addrMask).toNat = frame := by
  have hval : (BitVec.ofNat 64 frame).toNat = frame := by
    rw [BitVec.toNat_ofNat, Nat.mod_eq_of_lt (by omega)]
  rw [and_addrMask_of_lt, hval]
  · apply BitVec.eq_of_toNat_eq
    rw [BitVec.toNat_and, hval, show (pageSize - 1 : BitVec 64).toNat = 2 ^ 12 - 1 by decide,
      Nat.and_two_pow_sub_one_eq_mod]
    exact haligned
  · rw [hval]
    exact hlt

/-- What an entry for a frame holds. -/
def entryOf (frame : Nat) : Option Nat := some (BitVec.ofNat 64 frame &&& addrMask).toNat

/-- The loop of `map` behind the frames `before`. On an error the pages before it are mapped. -/
theorem shows_mapFrames (before : List Nat) {frames : List Nat}
    (hroot : cr3 &&& addrMask ∈ roots) (hrange : UserRange virt (before.length + frames.length))
    (h : Shows roots vm
      (pages.fill (cr3 &&& addrMask) (virt.toNat / 4096) (before.map entryOf))) :
    match mapFrames cr3 virt before.length frames vm with
    | (none, vm') => Shows roots vm'
        (pages.fill (cr3 &&& addrMask) (virt.toNat / 4096) ((before ++ frames).map entryOf))
    | (some stop, vm') => ∃ done : List Nat, done.length = stop ∧
        stop ≤ before.length + frames.length ∧
        Shows roots vm' (pages.fill (cr3 &&& addrMask) (virt.toNat / 4096) (done.map entryOf)) := by
  induction frames generalizing before vm with
  | nil =>
    rw [List.append_nil]
    exact h
  | cons frame frames ih =>
    have hhere : before.length < before.length + (frame :: frames).length := by simp
    have hmap := h.mapNext hroot hrange (List.length_map _) hhere (BitVec.ofNat 64 frame)
      MapFlags.userReadWrite.noExecute
    rw [mapFrames]
    generalize vm.mapPage cr3 _ _ _ = result at hmap ⊢
    obtain ⟨answer, vm'⟩ := result
    cases answer with
    | error e => exact ⟨before, rfl, Nat.le_add_right _ _, hmap⟩
    | ok =>
      dsimp only at hmap ⊢
      have hsnoc : before.map entryOf ++ [entryOf frame] = (before ++ [frame]).map entryOf := by simp
      rw [show some _ = entryOf frame from rfl, hsnoc] at hmap
      have hlater := ih (before ++ [frame])
        (by
          rw [List.length_append, List.length_singleton, Nat.add_assoc, Nat.add_comm 1]
          exact hrange) hmap
      rw [List.length_append, List.length_singleton, List.append_assoc, List.singleton_append,
        Nat.add_assoc, Nat.add_comm 1] at hlater
      exact hlater

/-- Unmapping what was mapped brings back empty pages. -/
theorem shows_mapFrames_undone (h : Shows roots vm pages) (hroot : cr3 &&& addrMask ∈ roots)
    {frames : List Nat} (hrange : UserRange virt frames.length)
    (hnone : ∀ i < frames.length, pages (cr3 &&& addrMask) (virt.toNat / 4096 + i) = none)
    {stop : Nat} {vm' : Vmm} (hmap : mapFrames cr3 virt 0 frames vm = (some stop, vm')) :
    Shows roots (unmapRange vm' cr3 virt (stop * 4096)) pages := by
  have hmapped := @shows_mapFrames _ _ pages _ _ [] frames hroot (by simpa using hrange)
    (by simpa using h)
  rw [List.length_nil, hmap] at hmapped
  obtain ⟨done, rfl, hle, hshows⟩ := hmapped
  rw [Nat.zero_add] at hle
  have hback := shows_unmapRange hshows hroot (hrange.mono hle)
  rw [Pages.fill_fill (by simp), Pages.fill_of_eq] at hback
  · exact hback
  · intro i entry hget
    rw [List.getElem?_replicate] at hget
    split at hget
    · obtain rfl := Option.some.inj hget
      exact hnone i (by omega)
    · cases hget

end Loops

end KazuOS
