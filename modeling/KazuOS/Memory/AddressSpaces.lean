import KazuOS.Lib.Run
import KazuOS.Memory.Vmm

/-! Separation of address spaces. The user halves of all roots form one forest of
tables: no table hangs in two slots and none is a page the heap may still hand
out. A leaf write therefore reaches one page of one address space. -/
namespace KazuOS.Memory.AddressSpaces

open Lib Vmm

/-- The PML4 entries an address space has for itself. -/
def UserIndex (i : Fin 512) : Prop := 1 ≤ i.val ∧ i.val < 256

instance (i : Fin 512) : Decidable (UserIndex i) := inferInstanceAs (Decidable (_ ∧ _))

def UserAddress (virt : BitVec 64) : Prop := UserIndex (pml4Index virt)

instance (virt : BitVec 64) : Decidable (UserAddress virt) :=
  inferInstanceAs (Decidable (UserIndex _))

def path (virt : BitVec 64) : List (Fin 512) :=
  [pml4Index virt, pdptIndex virt, pdIndex virt, ptIndex virt]

/-- The number of the 4 KiB page of a 48-bit virtual address. -/
def page (virt : BitVec 64) : Nat := virt.toNat / 4096 % 2 ^ 36

theorem index_val (virt : BitVec 64) (shift : Nat) :
    (index virt shift).val = virt.toNat / 2 ^ shift % 512 := by
  have hmask : (virt.toNat >>> shift) &&& (2 ^ 9 - 1) = virt.toNat >>> shift % 2 ^ 9 :=
    Nat.and_two_pow_sub_one_eq_mod _ 9
  have hlit : (0x1ff : BitVec 64).toNat = 2 ^ 9 - 1 := rfl
  simp only [index, Fin.ofNat, BitVec.toNat_and, BitVec.toNat_ushiftRight, hlit]
  rw [hmask, Nat.shiftRight_eq_div_pow]
  omega

theorem page_eq_of_path_eq {virt virt' : BitVec 64} (h : path virt = path virt') :
    page virt = page virt' := by
  simp only [path, List.cons.injEq, Fin.ext_iff, pml4Index, pdptIndex, pdIndex, ptIndex,
    index_val] at h
  unfold page
  omega

/-- The separation invariant. `level` is four for a root, one for a table of
leaves, and zero for a page that is no user table. -/
structure Separated (vm : Vmm) (roots : List (BitVec 64)) (level : BitVec 64 → Nat) : Prop where
  forest : Forest 4 UserIndex vm.child level
  tables : ∀ t, level t ≠ 0 → t ≠ 0 ∧ t &&& addrMask = t
  root : ∀ r ∈ roots, level r = 4
  kernel : vm.kernelPml4 ∈ roots
  fresh : ∀ p, some p ∈ vm.heap → level p = 0 ∧ p ≠ 0 ∧ p &&& addrMask = p
  distinct : (vm.heap.filterMap id).Nodup
  shared : ∀ r ∈ roots, ∀ i, ¬UserIndex i → vm.mem r i = vm.mem vm.kernelPml4 i

section Entries

variable (vm : Vmm) (t : BitVec 64) (i : Fin 512)

theorem child_write (value : BitVec 64) (t' : BitVec 64) (j : Fin 512) :
    (vm.write t i value).child t' j =
      if t' = t ∧ j = i then
        if value &&& present ≠ 0 then some (value &&& addrMask) else none
      else vm.child t' j := by
  simp only [Vmm.child, Vmm.write]
  by_cases h : t' = t ∧ j = i
  · simp only [if_pos h]
  · simp only [if_neg h]

theorem tableIfPresent_eq : vm.tableIfPresent t i = (vm.child t i).getD 0 := by
  unfold tableIfPresent child
  dsimp only
  split
  · rfl
  · rfl

/-- An entry made of an address, the present bit and permissions. -/
theorem entry_eq (addr flags : BitVec 64) (hflags : flags &&& addrMask = 0) :
    ((addr &&& addrMask) ||| present ||| flags) &&& present ≠ 0 ∧
      ((addr &&& addrMask) ||| present ||| flags) &&& addrMask = addr &&& addrMask := by
  constructor
  · intro hzero
    have hbit : (((addr &&& addrMask) ||| present ||| flags) &&& present).getLsbD 0 = true := by
      simp [present]
    rw [hzero] at hbit
    simp at hbit
  · have hpresent : present &&& addrMask = 0 := by decide
    rw [BitVec.and_or_distrib_right, BitVec.and_or_distrib_right, hpresent, hflags]
    simp [BitVec.and_assoc]

end Entries

theorem snd_of_slot {child : BitVec 64 → Fin 512 → Option (BitVec 64)} {r virt : BitVec 64}
    {leaf : BitVec 64 × Fin 512} (hslot : slot child r (path virt) = some leaf) :
    leaf.2 = ptIndex virt := by
  simp only [path, slot, Option.bind_eq_some_iff, Option.some.injEq] at hslot
  obtain ⟨_, -, _, -, _, -, rfl⟩ := hslot
  rfl

namespace Separated

variable {vm : Vmm} {roots : List (BitVec 64)} {level : BitVec 64 → Nat}

theorem fits (sep : Separated vm roots level) {r virt : BitVec 64} (hroot : r ∈ roots)
    (huser : UserAddress virt) : Fits 4 UserIndex level r (path virt) := by
  refine ⟨sep.root r hroot, (sep.root r hroot).le, ?_⟩
  rintro - i hi
  simp only [path, List.head?_cons, Option.mem_def, Option.some.injEq] at hi
  exact hi ▸ huser

theorem child_ne_zero (sep : Separated vm roots level) {t u : BitVec 64} {i : Fin 512}
    (hlinks : Links 4 UserIndex level t i) (hchild : vm.child t i = some u) : u ≠ 0 := by
  have hdown := sep.forest.descends t i u hlinks hchild
  have hpos := hlinks.1
  exact (sep.tables u (by omega)).1

/-- The steps translate_page and unmap_page share: a null table ends the walk. -/
private theorem walk_eq (sep : Separated vm roots level) {r virt : BitVec 64} (hroot : r ∈ roots)
    (huser : UserAddress virt) (missing : α) (found : BitVec 64 → α) :
    (if vm.tableIfPresent r (pml4Index virt) = 0 then missing
      else if vm.tableIfPresent (vm.tableIfPresent r (pml4Index virt)) (pdptIndex virt) = 0 then
        missing
      else if vm.tableIfPresent (vm.tableIfPresent (vm.tableIfPresent r (pml4Index virt))
          (pdptIndex virt)) (pdIndex virt) = 0 then missing
      else found (vm.tableIfPresent (vm.tableIfPresent (vm.tableIfPresent r (pml4Index virt))
          (pdptIndex virt)) (pdIndex virt))) =
      match slot vm.child r (path virt) with
      | none => missing
      | some leaf => found leaf.1 := by
  have hfits := sep.fits hroot huser
  simp only [path, slot, tableIfPresent_eq] at hfits ⊢
  cases hpdpt : vm.child r (pml4Index virt) with
  | none => rfl
  | some pdpt =>
    have hfits := hfits.next sep.forest hpdpt
    simp only [Option.getD_some, Option.bind_some,
      if_neg (sep.child_ne_zero ‹Fits _ _ _ r _›.links hpdpt)]
    cases hpd : vm.child pdpt (pdptIndex virt) with
    | none => rfl
    | some pd =>
      simp only [Option.getD_some, Option.bind_some, if_neg (sep.child_ne_zero hfits.links hpd)]
      have hfits := hfits.next sep.forest hpd
      cases hpt : vm.child pd (pdIndex virt) with
      | none => rfl
      | some pt =>
        simp only [Option.getD_some, Option.bind_some, if_neg (sep.child_ne_zero hfits.links hpt)]

variable {cr3 virt : BitVec 64}

theorem translate_eq (sep : Separated vm roots level)
    (hroot : cr3 &&& addrMask ∈ roots) (huser : UserAddress virt) :
    vm.translate cr3 virt = (slot vm.child (cr3 &&& addrMask) (path virt)).bind vm.leaf := by
  refine (sep.walk_eq hroot huser none fun pt => vm.leaf (pt, ptIndex virt)).trans ?_
  cases hslot : slot vm.child (cr3 &&& addrMask) (path virt) with
  | none => rfl
  | some leaf => rw [← snd_of_slot hslot]; rfl

theorem unmapPage_eq (sep : Separated vm roots level)
    (hroot : cr3 &&& addrMask ∈ roots) (huser : UserAddress virt) :
    vm.unmapPage cr3 virt =
      match slot vm.child (cr3 &&& addrMask) (path virt) with
      | none => vm
      | some leaf => vm.write leaf.1 leaf.2 0 := by
  refine (sep.walk_eq hroot huser vm fun pt => vm.write pt (ptIndex virt) 0).trans ?_
  cases hslot : slot vm.child (cr3 &&& addrMask) (path virt) with
  | none => rfl
  | some leaf => rw [← snd_of_slot hslot]

/-- Leaf tables link nothing, so writing one leaves every walk as it was. -/
theorem write (sep : Separated vm roots level) {pt : BitVec 64} (hlevel : level pt = 1)
    (i : Fin 512) (value : BitVec 64) : Separated (vm.write pt i value) roots level where
  forest := sep.forest.prune fun t j u hlinks hchild => by
    have hne : ¬(t = pt ∧ j = i) := by
      rintro ⟨rfl, -⟩
      have := hlinks.1
      omega
    simpa only [child_write, if_neg hne] using hchild
  tables := sep.tables
  root := sep.root
  kernel := sep.kernel
  fresh := sep.fresh
  distinct := sep.distinct
  shared r hr j hj := by
    have hroot : ∀ r ∈ roots, ¬(r = pt ∧ j = i) := by
      rintro r hr ⟨rfl, -⟩
      have := sep.root r hr
      omega
    simp only [Vmm.write, if_neg (hroot r hr), if_neg (hroot _ sep.kernel)]
    exact sep.shared r hr j hj

theorem slot_write (sep : Separated vm roots level) {pt : BitVec 64} (hlevel : level pt = 1)
    (i : Fin 512) (value : BitVec 64) {r virt : BitVec 64} (hroot : r ∈ roots)
    (huser : UserAddress virt) :
    slot (vm.write pt i value).child r (path virt) = slot vm.child r (path virt) := by
  refine slot_congr sep.forest ?_ (sep.fits hroot huser)
  intro t j hlinks
  have hne : ¬(t = pt ∧ j = i) := by
    rintro ⟨rfl, -⟩
    have := hlinks.1
    omega
  rw [child_write, if_neg hne]

/-- A leaf write changes the translation of the one page whose walk ends there. -/
theorem translate_write (sep : Separated vm roots level)
    (hroot : cr3 &&& addrMask ∈ roots) (huser : UserAddress virt) {leaf : BitVec 64 × Fin 512}
    (hslot : slot vm.child (cr3 &&& addrMask) (path virt) = some leaf) (value : BitVec 64) :
    ((vm.write leaf.1 leaf.2 value).translate cr3 virt =
        if value &&& present ≠ 0 then some (value &&& addrMask) else none) ∧
      ∀ cr3' virt', cr3' &&& addrMask ∈ roots → UserAddress virt' →
        (cr3' &&& addrMask ≠ cr3 &&& addrMask ∨ page virt' ≠ page virt) →
        (vm.write leaf.1 leaf.2 value).translate cr3' virt' = vm.translate cr3' virt' := by
  have hlevel := level_of_slot sep.forest (sep.fits hroot huser) hslot
  have hsep := sep.write hlevel leaf.2 value
  constructor
  · rw [hsep.translate_eq hroot huser, sep.slot_write hlevel _ _ hroot huser, hslot,
      Option.bind_some, Vmm.leaf, child_write, if_pos ⟨rfl, rfl⟩]
  · intro cr3' virt' hroot' huser' hother
    rw [hsep.translate_eq hroot' huser', sep.slot_write hlevel _ _ hroot' huser',
      sep.translate_eq hroot' huser']
    cases hslot' : slot vm.child (cr3' &&& addrMask) (path virt') with
    | none => rfl
    | some leaf' =>
      rw [Option.bind_some, Option.bind_some, Vmm.leaf, Vmm.leaf, child_write, if_neg]
      rintro ⟨hfst, hsnd⟩
      obtain rfl : leaf' = leaf := Prod.ext hfst hsnd
      obtain ⟨hcr3, hpath⟩ := slot_injective sep.forest (sep.fits hroot' huser')
        (sep.fits hroot huser) rfl hslot' hslot
      exact hother.elim (· hcr3) (· (page_eq_of_path_eq hpath))

end Separated

/-- A page that is no user table and that the heap will not hand out as one. -/
structure Outside (vm : Vmm) (level : BitVec 64 → Nat) (t : BitVec 64) : Prop where
  level : level t = 0
  heap : some t ∉ vm.heap

/-- Tables were added and nothing that existed changed. -/
structure Grows (roots : List (BitVec 64)) (vm : Vmm) (level : BitVec 64 → Nat) (vm' : Vmm)
    (level' : BitVec 64 → Nat) : Prop where
  separated : Separated vm' roots level'
  kernel : vm'.kernelPml4 = vm.kernelPml4
  level_eq : ∀ t, level t ≠ 0 → level' t = level t
  child_eq : ∀ t i u, level t ≠ 0 → vm.child t i = some u → vm'.child t i = some u
  shared_eq : ∀ i, ¬UserIndex i → vm'.mem vm.kernelPml4 i = vm.mem vm.kernelPml4 i
  translate_eq : ∀ cr3 virt, cr3 &&& addrMask ∈ roots → UserAddress virt →
    vm'.translate cr3 virt = vm.translate cr3 virt
  outside : ∀ t, Outside vm level t → Outside vm' level' t ∧ vm'.mem t = vm.mem t

namespace Grows

variable {roots : List (BitVec 64)} {vm vm' vm'' : Vmm} {level level' level'' : BitVec 64 → Nat}

theorem refl (sep : Separated vm roots level) : Grows roots vm level vm level :=
  ⟨sep, rfl, fun _ _ => rfl, fun _ _ _ _ h => h, fun _ _ => rfl, fun _ _ _ _ => rfl,
    fun _ h => ⟨h, rfl⟩⟩

theorem trans (first : Grows roots vm level vm' level')
    (second : Grows roots vm' level' vm'' level'') : Grows roots vm level vm'' level'' where
  separated := second.separated
  kernel := second.kernel.trans first.kernel
  level_eq t ht := by
    have hsame := first.level_eq t ht
    exact (second.level_eq t (hsame ▸ ht)).trans hsame
  child_eq t i u ht hchild :=
    second.child_eq t i u (first.level_eq t ht ▸ ht) (first.child_eq t i u ht hchild)
  shared_eq i hi := by
    have hsecond := second.shared_eq i hi
    rw [first.kernel] at hsecond
    exact hsecond.trans (first.shared_eq i hi)
  translate_eq cr3 virt hroot huser :=
    (second.translate_eq cr3 virt hroot huser).trans (first.translate_eq cr3 virt hroot huser)
  outside t ht := by
    obtain ⟨hfirst, hmem⟩ := first.outside t ht
    obtain ⟨hsecond, hmem'⟩ := second.outside t hfirst
    exact ⟨hsecond, hmem'.trans hmem⟩

end Grows

section Operations

variable {vm : Vmm} {roots : List (BitVec 64)} {level : BitVec 64 → Nat}

variable {heap : List (Option (BitVec 64))} {cr3 virt : BitVec 64} {level' : BitVec 64 → Nat}
  {i : Fin 512} {vm' : Vmm}

/-- A refused request costs the heap's answer only. -/
theorem Separated.dropHeap (sep : Separated vm roots level) {answer : Option (BitVec 64)}
    (hheap : vm.heap = answer :: heap) :
    Separated { vm with heap } roots level where
  forest := sep.forest
  tables := sep.tables
  root := sep.root
  kernel := sep.kernel
  fresh p hp := sep.fresh p (hheap ▸ List.mem_cons_of_mem _ hp)
  distinct := by
    have hdistinct := sep.distinct
    rw [hheap] at hdistinct
    exact hdistinct.sublist (List.Sublist.filterMap id (List.sublist_cons_self answer heap))
  shared := sep.shared

theorem link_entry (page : BitVec 64) (flags : MapFlags) (hpage : page &&& addrMask = page) :
    ((page &&& addrMask) ||| present ||| writable ||| (flags.bits &&& user)) &&& present ≠ 0 ∧
      ((page &&& addrMask) ||| present ||| writable ||| (flags.bits &&& user)) &&& addrMask =
        page := by
  have hflags : (writable ||| (flags.bits &&& user)) &&& addrMask = 0 := by
    have hwritable : writable &&& addrMask = 0 := by decide
    have huser : user &&& addrMask = 0 := by decide
    rw [BitVec.and_or_distrib_right, BitVec.and_assoc, hwritable, huser]
    simp
  have hentry := entry_eq page _ hflags
  rw [← BitVec.or_assoc, hpage] at hentry
  rw [hpage]
  exact hentry

/-- The heap pages still to come stay fresh when one of them becomes a table. -/
theorem Separated.heap_tail (sep : Separated vm roots level) {page : BitVec 64}
    (hheap : vm.heap = some page :: heap) :
    (∀ p, some p ∈ heap → p ≠ page ∧ level p = 0 ∧ p ≠ 0 ∧ p &&& addrMask = p) ∧
      (heap.filterMap id).Nodup := by
  have hdistinct : (page :: heap.filterMap id).Nodup := by
    have h := sep.distinct
    rw [hheap] at h
    exact h
  rw [List.nodup_cons] at hdistinct
  refine ⟨?_, hdistinct.2⟩
  intro p hp
  refine ⟨?_, sep.fresh p (hheap ▸ List.mem_cons_of_mem _ hp)⟩
  rintro rfl
  exact hdistinct.1 (List.mem_filterMap.mpr ⟨_, hp, rfl⟩)

/-- A fresh page hung into an empty linking slot. -/
theorem Separated.link (sep : Separated vm roots level) {page t value : BitVec 64}
    (hheap : vm.heap = some page :: heap)
    (hlinks : Links 4 UserIndex level t i) (hempty : vm.child t i = none)
    (hpresent : value &&& present ≠ 0) (haddr : value &&& addrMask = page)
    (hvm' : vm' = Vmm.write { vm with
      heap, mem := fun t j => if t = page then 0 else vm.mem t j } t i value) :
    Grows roots vm level vm' (Function.update level page (level t - 1)) ∧
      vm'.child t i = some page := by
  obtain ⟨hlevel, hzero, haligned⟩ := sep.fresh page (hheap ▸ List.mem_cons_self)
  obtain ⟨htail, hdistinct⟩ := sep.heap_tail hheap
  have hchild : vm'.child = Lib.link vm.child t i page := by
    funext t' j
    rw [hvm', child_write, Lib.link]
    by_cases hslot : t' = t ∧ j = i
    · rw [if_pos hslot, if_pos hslot, if_pos hpresent, haddr]
    · rw [if_neg hslot, if_neg hslot]
      by_cases hpage : t' = page
      · simp [Vmm.child, hpage]
      · simp [Vmm.child, hpage]
  have hroot_ne : ∀ r ∈ roots, r ≠ page := by
    rintro r hr rfl
    have := sep.root r hr
    omega
  have hroot_mem : ∀ r ∈ roots, ∀ j, ¬UserIndex j → vm'.mem r j = vm.mem r j := by
    intro r hr j hj
    have hslot : ¬(r = t ∧ j = i) := by
      rintro ⟨rfl, rfl⟩
      exact hj (hlinks.2.2 (sep.root r hr))
    rw [hvm']
    simp [Vmm.write, hslot, hroot_ne r hr]
  have hkernel : vm'.kernelPml4 = vm.kernelPml4 := by rw [hvm']; rfl
  have hsep : Separated vm' roots (Function.update level page (level t - 1)) := by
    refine ⟨hchild ▸ sep.forest.link hlevel hlinks, ?_, ?_, hkernel ▸ sep.kernel, ?_, ?_, ?_⟩
    · intro t' ht'
      by_cases hpage : t' = page
      · exact hpage ▸ ⟨hzero, haligned⟩
      · exact sep.tables t' (by rwa [Function.update_of_ne hpage] at ht')
    · intro r hr
      rw [Function.update_of_ne (hroot_ne r hr)]
      exact sep.root r hr
    · intro p hp
      rw [hvm'] at hp
      obtain ⟨hne, hp⟩ := htail p hp
      rwa [Function.update_of_ne hne]
    · rw [hvm']
      exact hdistinct
    · intro r hr j hj
      rw [hkernel, hroot_mem r hr j hj, hroot_mem _ sep.kernel j hj]
      exact sep.shared r hr j hj
  refine ⟨⟨hsep, hkernel, ?_, ?_, hroot_mem _ sep.kernel, ?_, ?_⟩, ?_⟩
  · intro t' ht'
    exact Function.update_of_ne (by rintro rfl; exact ht' hlevel) _ _
  · intro t' j u ht' hold
    have hslot : ¬(t' = t ∧ j = i) := by
      rintro ⟨rfl, rfl⟩
      rw [hempty] at hold
      cases hold
    have hpage : t' ≠ page := by
      rintro rfl
      exact ht' hlevel
    rw [hchild, Lib.link, if_neg hslot, if_neg hpage, hold]
  · intro cr3 virt hroot huser
    have hleaf : vm'.leaf = fun leaf => Lib.link vm.child t i page leaf.1 leaf.2 := by
      funext leaf
      rw [← hchild]
      rfl
    rw [hsep.translate_eq hroot huser, sep.translate_eq hroot huser, hchild, hleaf]
    exact leaf_link sep.forest hlevel hlinks hempty (sep.fits hroot huser)
  · rintro t' ⟨ht', hheap'⟩
    rw [hheap, List.mem_cons, not_or, Option.some.injEq] at hheap'
    have hparent : t' ≠ t := by
      rintro rfl
      have := hlinks.1
      omega
    refine ⟨⟨(Function.update_of_ne hheap'.1 _ _).trans ht', ?_⟩, ?_⟩
    · rw [hvm']
      exact hheap'.2
    · funext j
      rw [hvm']
      simp [Vmm.write, hparent, hheap'.1]
  · rw [hchild, Lib.link, if_pos ⟨rfl, rfl⟩]

theorem nextTable_grows (sep : Separated vm roots level) {t : BitVec 64}
    (hlinks : Links 4 UserIndex level t i) (flags : MapFlags) :
    ∃ level', Grows roots vm level (vm.nextTable t i flags).2 level' ∧
      ∀ u, (vm.nextTable t i flags).1 = .ok u → (vm.nextTable t i flags).2.child t i = some u := by
  unfold nextTable allocTable
  dsimp only
  split
  · rename_i hpresent
    refine ⟨level, .refl sep, ?_⟩
    intro u hu
    rw [Vmm.child, if_pos hpresent, Except.ok.inj hu]
  · rename_i hpresent
    have hempty : vm.child t i = none := if_neg hpresent
    cases hheap : vm.heap with
    | nil => exact ⟨level, .refl sep, fun u hu => by cases hu⟩
    | cons answer heap =>
      cases answer with
      | none =>
        refine ⟨level, ⟨sep.dropHeap hheap, rfl, fun _ _ => rfl, fun _ _ _ _ h => h,
          fun _ _ => rfl, fun _ _ _ _ => rfl, ?_⟩, fun u hu => by cases hu⟩
        rintro t' ⟨ht', hheap'⟩
        exact ⟨⟨ht', fun h => hheap' (hheap ▸ List.mem_cons_of_mem _ h)⟩, rfl⟩
      | some page =>
        obtain ⟨-, -, haligned⟩ := sep.fresh page (hheap ▸ List.mem_cons_self)
        obtain ⟨hvalue, haddr⟩ := link_entry page flags haligned
        obtain ⟨hgrows, hchild⟩ := sep.link hheap hlinks hempty hvalue haddr rfl
        refine ⟨_, hgrows, ?_⟩
        intro u hu
        exact Except.ok.inj hu ▸ hchild

/-- No entry in use has changed. -/
def KeepsEntries (level : BitVec 64 → Nat) (vm vm' : Vmm) : Prop :=
  ∀ t i, level t ≠ 0 → vm.mem t i &&& present ≠ 0 → vm'.mem t i = vm.mem t i

theorem Grows.keeps_trans {vm' vm'' : Vmm}
    (grows : Grows roots vm level vm' level') (first : KeepsEntries level vm vm')
    (second : KeepsEntries level' vm' vm'') : KeepsEntries level vm vm'' := by
  intro t i ht hpresent
  have hfirst := first t i ht hpresent
  exact (second t i (grows.level_eq t ht ▸ ht) (hfirst ▸ hpresent)).trans hfirst

theorem nextTable_keeps (sep : Separated vm roots level) (t : BitVec 64) (i : Fin 512)
    (flags : MapFlags) : KeepsEntries level vm (vm.nextTable t i flags).2 := by
  intro t' j ht' hpresent
  unfold nextTable allocTable
  dsimp only
  split
  · rfl
  · rename_i hempty
    cases hheap : vm.heap with
    | nil => rfl
    | cons answer heap =>
      cases answer with
      | none => rfl
      | some page =>
        have hfresh : t' ≠ page := by
          rintro rfl
          exact ht' (sep.fresh t' (hheap ▸ List.mem_cons_self)).1
        have hslot : ¬(t' = t ∧ j = i) := by
          rintro ⟨rfl, rfl⟩
          exact hempty hpresent
        exact (if_neg hslot).trans (if_neg hfresh)

/-- What map_page does: it adds tables, and with all of them there it writes the entry. -/
inductive MapsThrough (roots : List (BitVec 64)) (vm : Vmm) (level : BitVec 64 → Nat)
    (cr3 virt phys : BitVec 64) (flags : MapFlags) : Except MapError Unit × Vmm → Prop where
  | failed {vm' : Vmm} {level' : BitVec 64 → Nat} (e : MapError)
      (grows : Grows roots vm level vm' level') (keeps : KeepsEntries level vm vm') :
      MapsThrough roots vm level cr3 virt phys flags (.error e, vm')
  | mapped {vm' : Vmm} {level' : BitVec 64 → Nat} {pt : BitVec 64}
      (grows : Grows roots vm level vm' level') (keeps : KeepsEntries level vm vm')
      (hslot : slot vm'.child (cr3 &&& addrMask) (path virt) = some (pt, ptIndex virt)) :
      MapsThrough roots vm level cr3 virt phys flags
        (.ok (), vm'.write pt (ptIndex virt) ((phys &&& addrMask) ||| present ||| flags.bits))

/-- A property that adding a table keeps holds when the entry is written. -/
theorem mapPage_cases (sep : Separated vm roots level)
    (hroot : cr3 &&& addrMask ∈ roots) (huser : UserAddress virt) (phys : BitVec 64)
    (flags : MapFlags) {P : Vmm → Prop} (hP : P vm)
    (hnext : ∀ {vm level t i}, Separated vm roots level → Links 4 UserIndex level t i → P vm →
      P (vm.nextTable t i flags).2) :
    ∃ vm' level', Grows roots vm level vm' level' ∧ KeepsEntries level vm vm' ∧ P vm' ∧
      ((∃ e, vm.mapPage cr3 virt phys flags = (.error e, vm')) ∨
        ∃ pt, slot vm'.child (cr3 &&& addrMask) (path virt) = some (pt, ptIndex virt) ∧
          vm.mapPage cr3 virt phys flags = (.ok (), vm'.write pt (ptIndex virt)
            ((phys &&& addrMask) ||| present ||| flags.bits))) := by
  unfold mapPage
  dsimp only
  split
  · exact ⟨vm, level, Grows.refl sep, fun _ _ _ _ => rfl, hP, .inl ⟨_, rfl⟩⟩
  have hfits := sep.fits hroot huser
  obtain ⟨level₁, grows₁, hpdpt⟩ := nextTable_grows sep hfits.links flags
  have keeps₁ := nextTable_keeps sep (cr3 &&& addrMask) (pml4Index virt) flags
  have hP₁ := hnext sep hfits.links hP
  split
  · rename_i hnext
    rw [hnext] at grows₁ keeps₁ hP₁
    exact ⟨_, level₁, grows₁, keeps₁, hP₁, .inl ⟨_, rfl⟩⟩
  rename_i pdpt vm₁ hnext₁
  rw [hnext₁] at grows₁ keeps₁ hpdpt hP₁
  have hpdpt := hpdpt pdpt rfl
  have hfits₁ := (grows₁.separated.fits hroot huser).next grows₁.separated.forest hpdpt
  obtain ⟨level₂, grows₂, hpd⟩ := nextTable_grows grows₁.separated hfits₁.links flags
  have keeps₂ := grows₁.keeps_trans keeps₁
    (nextTable_keeps grows₁.separated pdpt (pdptIndex virt) flags)
  have hP₂ := hnext grows₁.separated hfits₁.links hP₁
  split
  · rename_i hnext
    rw [hnext] at grows₂ keeps₂ hP₂
    exact ⟨_, level₂, grows₁.trans grows₂, keeps₂, hP₂, .inl ⟨_, rfl⟩⟩
  rename_i pd vm₂ hnext₂
  rw [hnext₂] at grows₂ keeps₂ hpd hP₂
  have hpd := hpd pd rfl
  have hlevel₁ : level₁ pdpt ≠ 0 := by rw [hfits₁.1]; simp
  have hpdpt := grows₂.child_eq _ _ _ (by rw [grows₁.separated.root _ hroot]; simp) hpdpt
  have hfits₂ := ((grows₂.separated.fits hroot huser).next grows₂.separated.forest hpdpt).next
    grows₂.separated.forest hpd
  obtain ⟨level₃, grows₃, hpt⟩ := nextTable_grows grows₂.separated hfits₂.links flags
  have keeps₃ := (grows₁.trans grows₂).keeps_trans keeps₂
    (nextTable_keeps grows₂.separated pd (pdIndex virt) flags)
  have hP₃ := hnext grows₂.separated hfits₂.links hP₂
  split
  · rename_i hnext
    rw [hnext] at grows₃ keeps₃ hP₃
    exact ⟨_, level₃, (grows₁.trans grows₂).trans grows₃, keeps₃, hP₃, .inl ⟨_, rfl⟩⟩
  rename_i pt vm₃ hnext₃
  rw [hnext₃] at grows₃ keeps₃ hpt hP₃
  have hpt := hpt pt rfl
  have hpdpt := grows₃.child_eq _ _ _ (by rw [grows₂.separated.root _ hroot]; simp) hpdpt
  have hpd := grows₃.child_eq _ _ _ (grows₂.level_eq _ hlevel₁ ▸ hlevel₁) hpd
  have hslot : slot vm₃.child (cr3 &&& addrMask) (path virt) = some (pt, ptIndex virt) := by
    simp only [path, slot, hpdpt, hpd, hpt, Option.bind_some]
  exact ⟨vm₃, level₃, (grows₁.trans grows₂).trans grows₃, keeps₃, hP₃, .inr ⟨pt, hslot, rfl⟩⟩

theorem mapPage_through (sep : Separated vm roots level) (hroot : cr3 &&& addrMask ∈ roots)
    (huser : UserAddress virt) (phys : BitVec 64) (flags : MapFlags) :
    MapsThrough roots vm level cr3 virt phys flags (vm.mapPage cr3 virt phys flags) := by
  obtain ⟨vm', level', grows, keeps, -, ⟨e, hresult⟩ | ⟨pt, hslot, hresult⟩⟩ :=
    mapPage_cases sep hroot huser phys flags (P := fun _ => True) trivial fun _ _ _ => trivial
  · rw [hresult]
    exact .failed e grows keeps
  · rw [hresult]
    exact .mapped grows keeps hslot

/-- Everything a call of map_page does to the tables. -/
structure Maps (roots : List (BitVec 64)) (vm : Vmm) (cr3 virt phys : BitVec 64)
    (result : Except MapError Unit × Vmm) : Prop where
  separated : ∃ level', Separated result.2 roots level'
  kernel : result.2.kernelPml4 = vm.kernelPml4
  shared : ∀ i, ¬UserIndex i →
    result.2.mem vm.kernelPml4 i = vm.mem vm.kernelPml4 i
  failed : ∀ e, result.1 = .error e → ∀ cr3' virt', cr3' &&& addrMask ∈ roots →
    UserAddress virt' → result.2.translate cr3' virt' = vm.translate cr3' virt'
  mapped : result.1 = .ok () → result.2.translate cr3 virt = some (phys &&& addrMask)
  other : result.1 = .ok () → ∀ cr3' virt', cr3' &&& addrMask ∈ roots → UserAddress virt' →
    (cr3' &&& addrMask ≠ cr3 &&& addrMask ∨ page virt' ≠ page virt) →
    result.2.translate cr3' virt' = vm.translate cr3' virt'

theorem Grows.maps_error
    (grows : Grows roots vm level vm' level') (cr3 virt phys : BitVec 64) (e : MapError) :
    Maps roots vm cr3 virt phys (.error e, vm') where
  separated := ⟨level', grows.separated⟩
  kernel := grows.kernel
  shared := grows.shared_eq
  failed _ _ := grows.translate_eq
  mapped h := by cases h
  other h := by cases h

/-- The leaf write that ends a successful call. -/
theorem Grows.maps_write (grows : Grows roots vm level vm' level') {cr3 virt pt : BitVec 64}
    (hroot : cr3 &&& addrMask ∈ roots) (huser : UserAddress virt)
    (hslot : slot vm'.child (cr3 &&& addrMask) (path virt) = some (pt, i))
    (phys : BitVec 64) (flags : MapFlags) :
    Maps roots vm cr3 virt phys
      (.ok (), vm'.write pt i ((phys &&& addrMask) ||| present ||| flags.bits)) := by
  have sep := grows.separated
  have hlevel : level' pt = 1 := level_of_slot sep.forest (sep.fits hroot huser) hslot
  obtain ⟨hpresent, haddr⟩ := entry_eq phys flags.bits flags.permissions
  obtain ⟨hmapped, hother⟩ := sep.translate_write hroot huser hslot
    ((phys &&& addrMask) ||| present ||| flags.bits)
  have hkernel : vm.kernelPml4 ∈ roots := grows.kernel ▸ sep.kernel
  refine ⟨⟨level', sep.write hlevel _ _⟩, grows.kernel, ?_, (fun e h => by cases h), ?_, ?_⟩
  · intro j hj
    have hne : ¬(vm.kernelPml4 = pt ∧ j = i) := by
      rintro ⟨rfl, -⟩
      rw [sep.root _ hkernel] at hlevel
      cases hlevel
    exact (if_neg hne).trans (grows.shared_eq j hj)
  · intro _
    rw [hmapped, if_pos hpresent, haddr]
  · intro _ cr3' virt' hroot' huser' hne
    exact (hother cr3' virt' hroot' huser' hne).trans
      (grows.translate_eq cr3' virt' hroot' huser')

theorem mapPage_maps (sep : Separated vm roots level)
    (hroot : cr3 &&& addrMask ∈ roots) (huser : UserAddress virt) (phys : BitVec 64)
    (flags : MapFlags) : Maps roots vm cr3 virt phys (vm.mapPage cr3 virt phys flags) := by
  have hthrough := mapPage_through sep hroot huser phys flags
  generalize vm.mapPage cr3 virt phys flags = result at hthrough
  cases hthrough with
  | failed e grows _ => exact grows.maps_error cr3 virt phys e
  | mapped grows _ hslot => exact grows.maps_write hroot huser hslot phys flags

/-- Whether it succeeds or not, map_page writes to tables only. -/
theorem mapPage_outside (sep : Separated vm roots level)
    (hroot : cr3 &&& addrMask ∈ roots) (huser : UserAddress virt) (phys : BitVec 64)
    (flags : MapFlags) : ∃ level', Separated (vm.mapPage cr3 virt phys flags).2 roots level' ∧
      ∀ t, Outside vm level t → Outside (vm.mapPage cr3 virt phys flags).2 level' t ∧
        (vm.mapPage cr3 virt phys flags).2.mem t = vm.mem t := by
  have hthrough := mapPage_through sep hroot huser phys flags
  generalize vm.mapPage cr3 virt phys flags = result at hthrough
  cases hthrough with
  | failed e grows _ => exact ⟨_, grows.separated, grows.outside⟩
  | @mapped vm' level' pt grows _ hslot =>
    have hlevel : level' pt = 1 :=
      level_of_slot grows.separated.forest (grows.separated.fits hroot huser) hslot
    refine ⟨_, grows.separated.write hlevel _ _, ?_⟩
    intro t ht
    obtain ⟨⟨hzero, hheap⟩, hmem⟩ := grows.outside t ht
    have hleaf : t ≠ pt := by
      rintro rfl
      rw [hzero] at hlevel
      cases hlevel
    refine ⟨⟨hzero, hheap⟩, ?_⟩
    rw [← hmem]
    funext j
    exact if_neg fun h => hleaf h.1

/-- Everything a call of unmap_page does to the tables. -/
structure Unmaps (roots : List (BitVec 64)) (vm : Vmm) (cr3 virt : BitVec 64) (vm' : Vmm) :
    Prop where
  separated : ∃ level', Separated vm' roots level'
  kernel : vm'.kernelPml4 = vm.kernelPml4
  shared : ∀ i, ¬UserIndex i → vm'.mem vm.kernelPml4 i = vm.mem vm.kernelPml4 i
  unmapped : vm'.translate cr3 virt = none
  other : ∀ cr3' virt', cr3' &&& addrMask ∈ roots → UserAddress virt' →
    (cr3' &&& addrMask ≠ cr3 &&& addrMask ∨ page virt' ≠ page virt) →
    vm'.translate cr3' virt' = vm.translate cr3' virt'

theorem unmapPage_unmaps (sep : Separated vm roots level) (hroot : cr3 &&& addrMask ∈ roots)
    (huser : UserAddress virt) : Unmaps roots vm cr3 virt (vm.unmapPage cr3 virt) := by
  rw [sep.unmapPage_eq hroot huser]
  cases hslot : slot vm.child (cr3 &&& addrMask) (path virt) with
  | none =>
    refine ⟨⟨level, sep⟩, rfl, fun _ _ => rfl, ?_, fun _ _ _ _ _ => rfl⟩
    rw [sep.translate_eq hroot huser, hslot, Option.bind_none]
  | some leaf =>
    have hlevel := level_of_slot sep.forest (sep.fits hroot huser) hslot
    obtain ⟨hunmapped, hother⟩ := sep.translate_write hroot huser hslot 0
    refine ⟨⟨level, sep.write hlevel _ _⟩, rfl, ?_, ?_, hother⟩
    · intro j _
      have hne : ¬(vm.kernelPml4 = leaf.1 ∧ j = leaf.2) := by
        rintro ⟨h, -⟩
        rw [← h, sep.root _ sep.kernel] at hlevel
        cases hlevel
      exact if_neg hne
    · rw [hunmapped]
      simp

/-- A new address space shares the kernel's entries and has no user table. -/
theorem createAddressSpace_separated (sep : Separated vm roots level) {page : BitVec 64}
    (hheap : vm.heap = some page :: heap) :
    Separated vm.createAddressSpace.2 (page :: roots) (Function.update level page 4) := by
  obtain ⟨hlevel, hzero, haligned⟩ := sep.fresh page (hheap ▸ List.mem_cons_self)
  obtain ⟨htail, hdistinct⟩ := sep.heap_tail hheap
  have hroot_ne : ∀ r ∈ roots, r ≠ page := by
    rintro r hr rfl
    have := sep.root r hr
    omega
  have hkernel := hroot_ne _ sep.kernel
  simp only [createAddressSpace, allocTable, hheap]
  constructor
  · refine sep.forest.plant hlevel ?_ ?_
    · intro i hi
      simp [Vmm.child, show 1 ≤ i.val ∧ i.val < 256 from hi]
    · intro t i ht
      simp [Vmm.child, ht]
  · intro t ht
    by_cases hpage : t = page
    · exact hpage ▸ ⟨hzero, haligned⟩
    · exact sep.tables t (by rwa [Function.update_of_ne hpage] at ht)
  · intro r hr
    by_cases hpage : r = page
    · rw [hpage, Function.update_self]
    · rw [Function.update_of_ne hpage]
      exact sep.root r (List.mem_of_ne_of_mem hpage hr)
  · exact List.mem_cons_of_mem _ sep.kernel
  · intro p hp
    obtain ⟨hne, hp⟩ := htail p hp
    rwa [Function.update_of_ne hne]
  · exact hdistinct
  · intro r hr i hi
    have huser : ¬(1 ≤ i.val ∧ i.val < 256) := hi
    by_cases hpage : r = page
    · simp [hpage, hkernel, huser]
    · have hshared := sep.shared r (List.mem_of_ne_of_mem hpage hr) i hi
      simp [hpage, hkernel, hshared]

theorem freeUserAddressSpace_separated (sep : Separated vm roots level) (cr3 : BitVec 64) :
    Separated (vm.freeUserAddressSpace cr3) roots level := by
  unfold freeUserAddressSpace
  dsimp only
  split
  · exact sep
  refine ⟨sep.forest.prune ?_, sep.tables, sep.root, sep.kernel, sep.fresh, sep.distinct, ?_⟩
  · intro t i u _ hchild
    simp only [Vmm.child] at hchild ⊢
    split at hchild
    · simp at hchild
    · exact hchild
  · intro r hr i hi
    have hkeep : ∀ t, ¬(t = cr3 &&& addrMask ∧ 1 ≤ i.val ∧ i.val < 256) := fun t h => hi h.2
    simp only [if_neg (hkeep _)]
    exact sep.shared r hr i hi

end Operations

/-- The tables together with the address spaces created so far, the kernel's
included. -/
structure Spaces where
  vm : Vmm
  roots : List (BitVec 64)

inductive Op where
  | create
  | map (cr3 virt phys : BitVec 64) (flags : MapFlags)
  | unmap (cr3 virt : BitVec 64)
  | free (cr3 : BitVec 64)

def step (s : Spaces) : Op → Option Spaces
  | .create =>
      match s.vm.createAddressSpace with
      | (.ok pml4, vm) => some ⟨vm, pml4 :: s.roots⟩
      | (.error _, vm) => some ⟨vm, s.roots⟩
  | .map cr3 virt phys flags =>
      if cr3 &&& addrMask ∈ s.roots ∧ UserAddress virt then
        some ⟨(s.vm.mapPage cr3 virt phys flags).2, s.roots⟩
      else none
  | .unmap cr3 virt =>
      if cr3 &&& addrMask ∈ s.roots ∧ UserAddress virt then
        some ⟨s.vm.unmapPage cr3 virt, s.roots⟩
      else none
  | .free cr3 =>
      if cr3 &&& addrMask ∈ s.roots then some ⟨s.vm.freeUserAddressSpace cr3, s.roots⟩ else none

abbrev Steps (s : Spaces) (op : Op) (t : Spaces) : Prop := step s op = some t

/-- What every run keeps: separation, and the kernel's own entries as at boot. -/
structure Kept (boot : Vmm) (s : Spaces) : Prop where
  separated : ∃ level, Separated s.vm s.roots level
  kernel : s.vm.kernelPml4 = boot.kernelPml4
  entries : ∀ i, ¬UserIndex i → s.vm.mem boot.kernelPml4 i = boot.mem boot.kernelPml4 i

variable {boot : Vmm}

theorem Kept.create {s t : Spaces} (kept : Kept boot s)
    (hstep : Steps s .create t) : Kept boot t := by
  obtain ⟨⟨level, sep⟩, hkernel, hentries⟩ := kept
  cases hheap : s.vm.heap with
  | nil =>
    simp only [Steps, step, createAddressSpace, allocTable, hheap, Option.some.injEq] at hstep
    exact hstep ▸ ⟨⟨level, sep⟩, hkernel, hentries⟩
  | cons answer heap =>
    cases answer with
    | none =>
      simp only [Steps, step, createAddressSpace, allocTable, hheap, Option.some.injEq] at hstep
      exact hstep ▸ ⟨⟨level, sep.dropHeap hheap⟩, hkernel, hentries⟩
    | some page =>
      have hsep := createAddressSpace_separated sep hheap
      have hne : boot.kernelPml4 ≠ page := by
        intro h
        have hroot := sep.root _ sep.kernel
        rw [hkernel, h, (sep.fresh page (hheap ▸ List.mem_cons_self)).1] at hroot
        cases hroot
      simp only [createAddressSpace, allocTable, hheap] at hsep
      simp only [Steps, step, createAddressSpace, allocTable, hheap, Option.some.injEq] at hstep
      subst hstep
      refine ⟨⟨_, hsep⟩, hkernel, ?_⟩
      intro i hi
      simpa [hne] using hentries i hi

theorem Kept.free {s : Spaces} (kept : Kept boot s) (cr3 : BitVec 64) :
    Kept boot ⟨s.vm.freeUserAddressSpace cr3, s.roots⟩ := by
  obtain ⟨⟨level, sep⟩, hkernel, hentries⟩ := kept
  refine ⟨⟨level, freeUserAddressSpace_separated sep cr3⟩, ?_, ?_⟩
  · unfold freeUserAddressSpace
    dsimp only
    split
    · exact hkernel
    · exact hkernel
  · intro i hi
    unfold freeUserAddressSpace
    dsimp only
    split
    · exact hentries i hi
    · exact (if_neg fun h => hi h.2).trans (hentries i hi)

theorem step_kept (s : Spaces) (op : Op) (t : Spaces) (kept : Kept boot s)
    (hstep : Steps s op t) : Kept boot t := by
  cases op with
  | create => exact kept.create hstep
  | map cr3 virt phys flags =>
    simp only [Steps, step, Option.ite_none_right_eq_some, Option.some.injEq] at hstep
    obtain ⟨⟨hroot, huser⟩, rfl⟩ := hstep
    obtain ⟨⟨level, sep⟩, hkernel, hentries⟩ := kept
    have hmaps := mapPage_maps sep hroot huser phys flags
    refine ⟨hmaps.separated, hmaps.kernel.trans hkernel, ?_⟩
    intro i hi
    exact (hkernel ▸ hmaps.shared i hi).trans (hentries i hi)
  | unmap cr3 virt =>
    simp only [Steps, step, Option.ite_none_right_eq_some, Option.some.injEq] at hstep
    obtain ⟨⟨hroot, huser⟩, rfl⟩ := hstep
    obtain ⟨⟨level, sep⟩, hkernel, hentries⟩ := kept
    have hunmaps := unmapPage_unmaps sep hroot huser
    refine ⟨hunmaps.separated, hunmaps.kernel.trans hkernel, ?_⟩
    intro i hi
    exact (hkernel ▸ hunmaps.shared i hi).trans (hentries i hi)
  | free cr3 =>
    simp only [Steps, step, Option.ite_none_right_eq_some, Option.some.injEq] at hstep
    obtain ⟨-, rfl⟩ := hstep
    exact kept.free cr3

/-- A page-aligned address that fits the 52 physical address bits is the address
an entry keeps. -/
theorem and_addrMask_of_lt {phys : BitVec 64} (haligned : phys &&& (pageSize - 1) = 0)
    (hlt : phys.toNat < 2 ^ 52) : phys &&& addrMask = phys := by
  have hall : phys &&& (addrMask ||| (pageSize - 1)) = phys := by
    apply BitVec.eq_of_toNat_eq
    rw [BitVec.toNat_and, show (addrMask ||| (pageSize - 1)).toNat = 2 ^ 52 - 1 by decide,
      Nat.and_two_pow_sub_one_eq_mod, Nat.mod_eq_of_lt hlt]
  rw [BitVec.and_or_distrib_left, haligned] at hall
  simpa using hall

theorem aligned_of_mapPage {vm : Vmm} {cr3 virt phys : BitVec 64} {flags : MapFlags}
    (hok : (vm.mapPage cr3 virt phys flags).1 = .ok ()) : phys &&& (pageSize - 1) = 0 := by
  unfold mapPage at hok
  split at hok
  · cases hok
  · rename_i haligned
    exact not_not.mp (not_or.mp haligned).2

/-- Boot leaves the user half of the kernel's own root empty. -/
theorem separated_of_empty {vm : Vmm} (hroot : vm.kernelPml4 ≠ 0)
    (hmask : vm.kernelPml4 &&& addrMask = vm.kernelPml4)
    (hempty : ∀ i, UserIndex i → vm.child vm.kernelPml4 i = none)
    (hfresh : ∀ p, some p ∈ vm.heap → p ≠ vm.kernelPml4 ∧ p ≠ 0 ∧ p &&& addrMask = p)
    (hdistinct : (vm.heap.filterMap id).Nodup) :
    Separated vm [vm.kernelPml4] (Function.update (fun _ => 0) vm.kernelPml4 4) := by
  have hlevel : ∀ t, Function.update (fun _ => 0) vm.kernelPml4 4 t ≠ 0 → t = vm.kernelPml4 := by
    intro t ht
    by_contra hne
    exact ht (Function.update_of_ne hne _ _)
  have hnone : ∀ t i u,
      Links 4 UserIndex (Function.update (fun _ => 0) vm.kernelPml4 4) t i →
      vm.child t i ≠ some u := by
    intro t i u hlinks
    obtain rfl := hlevel t (by have := hlinks.1; omega)
    rw [hempty i (hlinks.2.2 (Function.update_self _ _ _))]
    simp
  refine ⟨⟨?_, ?_⟩, ?_, ?_, List.mem_singleton_self _, ?_, hdistinct, ?_⟩
  · intro t i u hlinks hchild
    exact absurd hchild (hnone t i u hlinks)
  · intro t i _ _ u hlinks _ hchild
    exact absurd hchild (hnone t i u hlinks)
  · intro t ht
    exact hlevel t ht ▸ ⟨hroot, hmask⟩
  · intro r hr
    rw [List.mem_singleton.mp hr, Function.update_self]
  · intro p hp
    obtain ⟨hne, hp⟩ := hfresh p hp
    exact ⟨Function.update_of_ne hne _ _, hp⟩
  · intro r hr i _
    rw [List.mem_singleton.mp hr]

/-- A kernel root with one entry, and a heap with a page for each level. -/
def smallTables : Vmm where
  mem t i := if t = 0x1000 ∧ i = 0 then 0x9003 else 0
  kernelPml4 := 0x1000
  heap := [some 0x2000, some 0x3000, some 0x4000, some 0x5000]

theorem smallTables_separated :
    Separated smallTables [smallTables.kernelPml4]
      (Function.update (fun _ => 0) smallTables.kernelPml4 4) := by
  refine separated_of_empty (by decide) (by decide) ?_ ?_ (by decide)
  · intro i hi
    have hne : i ≠ 0 := by
      rintro rfl
      exact absurd hi.1 (by decide)
    simp [Vmm.child, smallTables, hne]
  · intro p hp
    simp only [smallTables, List.mem_cons, Option.some.injEq, List.not_mem_nil, or_false] at hp
    obtain rfl | rfl | rfl | rfl := hp
    · decide
    · decide
    · decide
    · decide

def smallSpaces : Spaces where
  vm := smallTables.createAddressSpace.2
  roots := [0x2000, smallTables.kernelPml4]

theorem smallSpaces_run :
    Run Steps ⟨smallTables, [smallTables.kernelPml4]⟩ [.create] smallSpaces :=
  .cons rfl (.nil _)

theorem smallSpaces_separated : ∃ level, Separated smallSpaces.vm smallSpaces.roots level :=
  (smallSpaces_run.preserves step_kept ⟨⟨_, smallTables_separated⟩, rfl, fun _ _ => rfl⟩).separated

/-- In every state the address spaces reach: a page mapped is translated to its
frame, an unmapped page to nothing, neither call is seen through any other page
of any address space, and the entries outside the user half are the kernel's. -/
theorem address_spaces_separate {boot : Vmm} {level : BitVec 64 → Nat}
    (hboot : Separated boot [boot.kernelPml4] level) {ops : List Op} {s : Spaces}
    (run : Run Steps ⟨boot, [boot.kernelPml4]⟩ ops s) :
    (∀ cr3 virt phys flags, cr3 &&& addrMask ∈ s.roots → UserAddress virt →
      (s.vm.mapPage cr3 virt phys flags).1 = .ok () →
      (phys.toNat < 2 ^ 52 →
        (s.vm.mapPage cr3 virt phys flags).2.translate cr3 virt = some phys) ∧
      ∀ cr3' virt', cr3' &&& addrMask ∈ s.roots → UserAddress virt' →
        (cr3' &&& addrMask ≠ cr3 &&& addrMask ∨ page virt' ≠ page virt) →
        (s.vm.mapPage cr3 virt phys flags).2.translate cr3' virt' =
          s.vm.translate cr3' virt') ∧
    (∀ cr3 virt, cr3 &&& addrMask ∈ s.roots → UserAddress virt →
      (s.vm.unmapPage cr3 virt).translate cr3 virt = none ∧
      ∀ cr3' virt', cr3' &&& addrMask ∈ s.roots → UserAddress virt' →
        (cr3' &&& addrMask ≠ cr3 &&& addrMask ∨ page virt' ≠ page virt) →
        (s.vm.unmapPage cr3 virt).translate cr3' virt' = s.vm.translate cr3' virt') ∧
    ∀ cr3 ∈ s.roots, ∀ i, ¬UserIndex i → s.vm.mem cr3 i = boot.mem boot.kernelPml4 i := by
  obtain ⟨⟨level, sep⟩, hkernel, hentries⟩ :=
    run.preserves step_kept ⟨⟨level, hboot⟩, rfl, fun _ _ => rfl⟩
  refine ⟨?_, ?_, ?_⟩
  · intro cr3 virt phys flags hroot huser hok
    have hmaps := mapPage_maps sep hroot huser phys flags
    refine ⟨?_, hmaps.other hok⟩
    intro hlt
    rw [hmaps.mapped hok, and_addrMask_of_lt (aligned_of_mapPage hok) hlt]
  · intro cr3 virt hroot huser
    have hunmaps := unmapPage_unmaps sep hroot huser
    exact ⟨hunmaps.unmapped, hunmaps.other⟩
  · intro cr3 hroot i hi
    rw [sep.shared cr3 hroot i hi, hkernel, hentries i hi]

theorem address_spaces_separate_smallSpaces :
    (smallSpaces.vm.mapPage 0x2000 0x8000000000 0x7000 .userReadWrite).2.translate
      0x2000 0x8000000000 = some 0x7000 :=
  ((address_spaces_separate smallTables_separated smallSpaces_run).1 0x2000 0x8000000000 0x7000
    .userReadWrite (by decide) (by decide) (by decide)).1 (by decide)

/-- A page-aligned address of more than 52 bits passes the check of map_page, and
the entry keeps its low 52 bits. -/
theorem translate_mapPage_wide :
    Separated smallTables [smallTables.kernelPml4]
        (Function.update (fun _ => 0) smallTables.kernelPml4 4) ∧
      Run Steps ⟨smallTables, [smallTables.kernelPml4]⟩ [.create] smallSpaces ∧
      0x2000 &&& addrMask ∈ smallSpaces.roots ∧ UserAddress 0x8000000000 ∧
      (smallSpaces.vm.mapPage 0x2000 0x8000000000 0x10000000000000 .userReadWrite).1 = .ok () ∧
      (smallSpaces.vm.mapPage 0x2000 0x8000000000 0x10000000000000 .userReadWrite).2.translate
        0x2000 0x8000000000 = some 0 :=
  ⟨smallTables_separated, smallSpaces_run, by decide, by decide, by decide, by decide⟩

end KazuOS.Memory.AddressSpaces
