import KazuOS.Memory.Release

/-! The user half of all address spaces, as a function from page numbers to physical
addresses. Tables show such a function, and a call of the mapper overwrites a run of it. -/
namespace KazuOS.Memory.AddressSpaces

open Vmm

/-- What each page of each address space is mapped to. -/
abbrev Pages := BitVec 64 → Nat → Option Nat

/-- The pages of user addresses. -/
def UserPage (n : Nat) : Prop := 2 ^ 27 ≤ n ∧ n < 2 ^ 35

theorem userAddress_iff (virt : BitVec 64) : UserAddress virt ↔ UserPage (page virt) := by
  unfold UserAddress UserIndex UserPage pml4Index page
  rw [index_val]
  omega

namespace Pages

/-- Overwrite consecutive pages of one address space. -/
def fill (pages : Pages) (root : BitVec 64) (first : Nat) (entries : List (Option Nat)) : Pages :=
  fun r n => if r = root ∧ first ≤ n ∧ n < first + entries.length then
    (entries[n - first]?).getD none else pages r n

variable {pages : Pages} {root : BitVec 64} {first : Nat}

variable {entries : List (Option Nat)}

theorem fill_inside {i : Nat} {entry : Option Nat}
    (h : entries[i]? = some entry) : pages.fill root first entries root (first + i) = entry := by
  have hi : i < entries.length := (List.getElem?_eq_some_iff.mp h).1
  rw [fill, if_pos ⟨rfl, by omega, by omega⟩, Nat.add_sub_cancel_left, h]
  rfl

variable {r : BitVec 64}

theorem fill_outside {n : Nat} (h : ¬(r = root ∧ first ≤ n ∧ n < first + entries.length)) :
    pages.fill root first entries r n = pages r n := if_neg h

@[simp] theorem fill_nil : pages.fill root first [] = pages := by
  funext r n
  apply fill_outside
  simp only [List.length_nil]
  omega

theorem fill_concat (pages : Pages) (root : BitVec 64) (first : Nat) (entries : List (Option Nat))
    (entry : Option Nat) :
    (pages.fill root first entries).fill root (first + entries.length) [entry] =
      pages.fill root first (entries ++ [entry]) := by
  funext r n
  by_cases hr : r = root
  · subst hr
    simp only [fill, true_and, List.length_append, List.length_singleton]
    by_cases hlast : n = first + entries.length
    · subst hlast
      simp
    by_cases hin : first ≤ n ∧ n < first + entries.length
    · rw [if_neg (by omega), if_pos hin, if_pos (by omega), List.getElem?_append_left (by omega)]
    · rw [if_neg (by omega), if_neg hin, if_neg (by omega)]
  · simp [fill, hr]

theorem fill_fill {entries entries' : List (Option Nat)} (h : entries.length = entries'.length) :
    (pages.fill root first entries).fill root first entries' = pages.fill root first entries' := by
  funext r n
  simp only [fill, h]
  split
  · rfl
  · rfl

theorem fill_of_eq (h : ∀ i entry, entries[i]? = some entry → pages root (first + i) = entry) :
    pages.fill root first entries = pages := by
  funext r n
  by_cases hin : r = root ∧ first ≤ n ∧ n < first + entries.length
  · obtain ⟨rfl, hle, hlt⟩ := hin
    have hi : n - first < entries.length := by omega
    obtain ⟨i, rfl⟩ := Nat.exists_eq_add_of_le hle
    rw [Nat.add_sub_cancel_left] at hi
    have hget := List.getElem?_eq_getElem hi
    rw [h i _ hget]
    exact fill_inside hget
  · exact fill_outside hin

/-- A page after others have been cleared. -/
theorem fill_none_eq {count : Nat} {n frame : Nat}
    (h : pages.fill root first (List.replicate count none) r n = some frame) :
    pages r n = some frame ∧ ¬(root = r ∧ first ≤ n ∧ n < first + count) := by
  by_cases hin : r = root ∧ first ≤ n ∧ n < first + (List.replicate count (none : Option Nat)).length
  · rw [fill, if_pos hin, List.getElem?_replicate] at h
    split at h
    · cases h
    · cases h
  · rw [fill_outside hin] at h
    rw [List.length_replicate] at hin
    exact ⟨h, fun hcovers => hin ⟨hcovers.1.symm, hcovers.2⟩⟩

end Pages

/-- The tables are separated and show `pages` in the user half of each address space. -/
structure Shows (roots : List (BitVec 64)) (vm : Vmm) (pages : Pages) : Prop where
  separated : ∃ level, Separated vm roots level
  user : ∀ root ∈ roots, ∀ virt, UserAddress virt →
    (vm.translate root virt).map BitVec.toNat = pages root (page virt)

theorem translate_mask (vm : Vmm) (cr3 virt : BitVec 64) :
    vm.translate (cr3 &&& addrMask) virt = vm.translate cr3 virt := by
  unfold Vmm.translate
  rw [BitVec.and_assoc, BitVec.and_self]

variable {roots : List (BitVec 64)} {level : BitVec 64 → Nat} {vm : Vmm}

variable {root : BitVec 64} {n : Nat}

theorem Separated.root_mask (sep : Separated vm roots level) (hroot : root ∈ roots) :
    root &&& addrMask = root := by
  have hlevel := sep.root root hroot
  exact (sep.tables root (by omega)).2

namespace Shows

variable {roots : List (BitVec 64)} {vm : Vmm} {pages : Pages} (h : Shows roots vm pages)
include h

theorem cr3_eq {cr3 : BitVec 64} (hroot : cr3 &&& addrMask ∈ roots) {virt : BitVec 64}
    (huser : UserAddress virt) :
    (vm.translate cr3 virt).map BitVec.toNat = pages (cr3 &&& addrMask) (page virt) := by
  rw [← translate_mask]
  exact h.user _ hroot virt huser

variable {vm' : Vmm}

/-- Two tables that show the same pages. -/
theorem translate_eq (h' : Shows roots vm' pages) {cr3 : BitVec 64}
    (hroot : cr3 &&& addrMask ∈ roots) {virt : BitVec 64} (huser : UserAddress virt) :
    vm'.translate cr3 virt = vm.translate cr3 virt := by
  apply Option.map_injective fun _ _ => BitVec.eq_of_toNat_eq
  exact (h'.cr3_eq hroot huser).trans (h.cr3_eq hroot huser).symm

variable {cr3 virt : BitVec 64}

/-- Tables that differ from the shown ones at one page. -/
theorem write {entry : Option Nat} (hsep : ∃ level, Separated vm' roots level)
    (hat : (vm'.translate cr3 virt).map BitVec.toNat = entry)
    (hother : ∀ cr3' virt', cr3' &&& addrMask ∈ roots → UserAddress virt' →
      (cr3' &&& addrMask ≠ cr3 &&& addrMask ∨ page virt' ≠ page virt) →
      vm'.translate cr3' virt' = vm.translate cr3' virt') :
    Shows roots vm' (pages.fill (cr3 &&& addrMask) (page virt) [entry]) := by
  refine ⟨hsep, ?_⟩
  intro root hroot virt' huser
  obtain ⟨level, sep⟩ := hsep
  by_cases hhere : root = cr3 &&& addrMask ∧ page virt' = page virt
  · obtain ⟨rfl, hpage⟩ := hhere
    rw [translate_mask, translate_of_page_eq hpage, hat, hpage]
    exact (Pages.fill_inside (i := 0) rfl).symm
  · have hout : ¬(root = cr3 &&& addrMask ∧ page virt ≤ page virt' ∧ page virt' < page virt + 1) := by
      rintro ⟨hr, hle, hlt⟩
      exact hhere ⟨hr, by omega⟩
    rw [Pages.fill_outside hout, ← h.user root hroot _ huser]
    rw [hother root virt' (by rwa [sep.root_mask hroot]) huser]
    rw [sep.root_mask hroot]
    tauto

theorem mapPage (hroot : cr3 &&& addrMask ∈ roots)
    (huser : UserAddress virt) (phys : BitVec 64) (flags : MapFlags) :
    match vm.mapPage cr3 virt phys flags with
    | (.ok (), vm') => Shows roots vm'
        (pages.fill (cr3 &&& addrMask) (page virt) [some (phys &&& addrMask).toNat])
    | (.error _, vm') => Shows roots vm' pages := by
  obtain ⟨level, sep⟩ := h.separated
  have hmaps := mapPage_maps sep hroot huser phys flags
  generalize hresult : vm.mapPage cr3 virt phys flags = result at hmaps
  obtain ⟨answer, vm'⟩ := result
  cases answer with
  | ok =>
    apply h.write hmaps.separated
    · rw [hmaps.mapped rfl]
      rfl
    · exact hmaps.other rfl
  | error e =>
    refine ⟨hmaps.separated, ?_⟩
    intro root hr virt' huser'
    obtain ⟨level', sep'⟩ := hmaps.separated
    rw [hmaps.failed e rfl root virt' (by rwa [sep'.root_mask hr]) huser']
    exact h.user root hr virt' huser'

theorem unmapPage (hroot : cr3 &&& addrMask ∈ roots) (huser : UserAddress virt) :
    Shows roots (vm.unmapPage cr3 virt) (pages.fill (cr3 &&& addrMask) (page virt) [none]) := by
  obtain ⟨level, sep⟩ := h.separated
  have hunmaps := unmapPage_unmaps sep hroot huser
  apply h.write hunmaps.separated
  · rw [hunmaps.unmapped]
    rfl
  · exact hunmaps.other

end Shows

/-- The pages that tables show, read at the first address of each. -/
def Pages.of (vm : Vmm) : Pages := fun root n =>
  (vm.translate root (BitVec.ofNat 64 (n * 4096))).map BitVec.toNat

theorem page_ofNat (h : n < 2 ^ 36) : page (BitVec.ofNat 64 (n * 4096)) = n := by
  unfold page
  rw [BitVec.toNat_ofNat]
  omega

theorem Separated.shows (sep : Separated vm roots level) : Shows roots vm (Pages.of vm) := by
  refine ⟨⟨level, sep⟩, ?_⟩
  intro root _ virt _
  have hpage : page virt < 2 ^ 36 := Nat.mod_lt _ (by decide)
  rw [Pages.of, translate_of_page_eq (page_ofNat hpage)]

theorem Shows.at_page {pages : Pages} (h : Shows roots vm pages) (hroot : root ∈ roots)
    (hn : UserPage n) : ∃ virt, UserAddress virt ∧ page virt = n ∧
      (vm.translate root virt).map BitVec.toNat = pages root n := by
  have hpage : page (BitVec.ofNat 64 (n * 4096)) = n := page_ofNat (by unfold UserPage at hn; omega)
  have huser : UserAddress (BitVec.ofNat 64 (n * 4096)) := by
    rw [userAddress_iff, hpage]
    exact hn
  have hat := h.user root hroot _ huser
  rw [hpage] at hat
  exact ⟨_, huser, hpage, hat⟩

/-- The page of an address some pages behind another. -/
theorem page_add {virt : BitVec 64} {i : Nat} (h : virt.toNat + i * 4096 < 2 ^ 48) :
    page (virt + BitVec.ofNat 64 (i * 4096)) = virt.toNat / 4096 + i := by
  unfold page
  rw [BitVec.toNat_add, BitVec.toNat_ofNat]
  omega

/-- A run of pages in the user half. -/
structure UserRange (virt : BitVec 64) (count : Nat) : Prop where
  low : 2 ^ 39 ≤ virt.toNat
  high : virt.toNat + count * 4096 ≤ 2 ^ 47

namespace UserRange

variable {virt : BitVec 64} {count i : Nat} (h : UserRange virt count)
include h

theorem userPage (hi : i < count) : UserPage (virt.toNat / 4096 + i) := by
  have hlow := h.low
  have hhigh := h.high
  unfold UserPage
  omega

theorem page_eq (hi : i < count) :
    page (virt + BitVec.ofNat 64 (i * 4096)) = virt.toNat / 4096 + i := by
  have hhigh := h.high
  exact page_add (by omega)

theorem user (hi : i < count) : UserAddress (virt + BitVec.ofNat 64 (i * 4096)) := by
  rw [userAddress_iff, h.page_eq hi]
  exact h.userPage hi

theorem mono {count' : Nat} (hle : count' ≤ count) : UserRange virt count' := by
  have hbytes := Nat.mul_le_mul_right 4096 hle
  exact ⟨h.low, Nat.le_trans (Nat.add_le_add_left hbytes _) h.high⟩

end UserRange

section Run

variable {vm : Vmm} {roots : List (BitVec 64)} {pages : Pages} {cr3 virt : BitVec 64}
  {entries : List (Option Nat)} {done count : Nat}

/-- The page behind a run that is filled: it is filled as well, or the mapping fails. -/
theorem Shows.mapNext
    (h : Shows roots vm (pages.fill (cr3 &&& addrMask) (virt.toNat / 4096) entries))
    (hroot : cr3 &&& addrMask ∈ roots) (hrange : UserRange virt count)
    (hlength : entries.length = done) (hhere : done < count) (phys : BitVec 64) (flags : MapFlags) :
    match vm.mapPage cr3 (virt + BitVec.ofNat 64 (done * 4096)) phys flags with
    | (.ok (), vm') => Shows roots vm' (pages.fill (cr3 &&& addrMask) (virt.toNat / 4096)
        (entries ++ [some (phys &&& addrMask).toNat]))
    | (.error _, vm') => Shows roots vm'
        (pages.fill (cr3 &&& addrMask) (virt.toNat / 4096) entries) := by
  subst hlength
  have hmap := h.mapPage hroot (hrange.user hhere) phys flags
  rw [hrange.page_eq hhere, Pages.fill_concat] at hmap
  exact hmap

end Run

end KazuOS.Memory.AddressSpaces
