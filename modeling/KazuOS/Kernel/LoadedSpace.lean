import KazuOS.Kernel.Framebuffer
import KazuOS.Kernel.Loader

/-! The address space that the loader builds: where code and stack are mapped, and what of the
kernel's memory stays as it was. -/
namespace KazuOS.Memory.AddressSpaces

open KazuOS.Lib Vmm

/-- Memory before and after work on address spaces. The kernel's own entries are kept, and of
the pages that are no tables only those in `P` change. -/
structure Extends (P : BitVec 64 → Prop) (vm : Vmm) (level : BitVec 64 → Nat) (vm' : Vmm)
    (level' : BitVec 64 → Nat) : Prop where
  kernel : vm'.kernelPml4 = vm.kernelPml4
  shared : ∀ i, ¬UserIndex i → vm'.mem vm.kernelPml4 i = vm.mem vm.kernelPml4 i
  outside : ∀ t, Outside vm level t → Outside vm' level' t
  mem : ∀ t, Outside vm level t → ¬P t → vm'.mem t = vm.mem t

section Extends

variable {P Q : BitVec 64 → Prop} {vm vm' vm'' : Vmm} {level level' level'' : BitVec 64 → Nat}
  {roots : List (BitVec 64)}

theorem Extends.refl (P : BitVec 64 → Prop) (vm : Vmm) (level : BitVec 64 → Nat) :
    Extends P vm level vm level :=
  ⟨rfl, fun _ _ => rfl, fun _ h => h, fun _ _ _ => rfl⟩

theorem Extends.mono (h : Extends P vm level vm' level') (hPQ : ∀ t, P t → Q t) :
    Extends Q vm level vm' level' :=
  ⟨h.kernel, h.shared, h.outside, fun t ht hQ => h.mem t ht fun hP => hQ (hPQ t hP)⟩

theorem Extends.trans (first : Extends P vm level vm' level')
    (second : Extends P vm' level' vm'' level'') : Extends P vm level vm'' level'' := by
  refine ⟨second.kernel.trans first.kernel, ?_, ?_, ?_⟩
  · intro i hi
    have hsecond := second.shared i hi
    rw [first.kernel] at hsecond
    exact hsecond.trans (first.shared i hi)
  · exact fun t ht => second.outside t (first.outside t ht)
  · exact fun t ht hP => (second.mem t (first.outside t ht) hP).trans (first.mem t ht hP)

theorem mapPage_extends (sep : Separated vm roots level) {cr3 virt : BitVec 64}
    (hroot : cr3 &&& addrMask ∈ roots) (huser : UserAddress virt) (phys : BitVec 64)
    (flags : MapFlags) : ∃ level', Separated (vm.mapPage cr3 virt phys flags).2 roots level' ∧
      Extends P vm level (vm.mapPage cr3 virt phys flags).2 level' := by
  have hmaps := mapPage_maps sep hroot huser phys flags
  obtain ⟨level', sep', houtside⟩ := mapPage_outside sep hroot huser phys flags
  exact ⟨level', sep', hmaps.kernel, hmaps.shared, fun t ht => (houtside t ht).1,
    fun t ht _ => (houtside t ht).2⟩

/-- The address of a page of a range. -/
def pageAt (virt : BitVec 64) (i : Nat) : BitVec 64 := virt + BitVec.ofNat 64 i * pageSize

theorem pageAt_zero (virt : BitVec 64) : pageAt virt 0 = virt := by
  simp [pageAt]

theorem pageAt_succ (virt page : BitVec 64) (i : Nat) :
    pageAt (virt + page * pageSize) (i + 1) = pageAt (virt + (page + 1) * pageSize) i := by
  have hone : BitVec.ofNat 64 1 = 1 := rfl
  rw [pageAt, pageAt, Nat.add_comm i 1, BitVec.ofNat_add, hone]
  ring

section MapPages

variable {cr3 virt : BitVec 64} (phys : BitVec 64) (flags : MapFlags)

variable {count : Nat}

/-- A range of pages that are not one another's: if it is mapped as a whole, each page leads to its
frame, and the others lead where they led. -/
theorem mapPages_extends (sep : Separated vm roots level) (hroot : cr3 &&& addrMask ∈ roots)
    (page : BitVec 64) (huser : ∀ i < count, UserAddress (pageAt (virt + page * pageSize) i)) :
    ∃ level', Separated (mapPages cr3 virt phys flags count page vm).2 roots level' ∧
      Extends P vm level (mapPages cr3 virt phys flags count page vm).2 level' ∧
      ((∀ i < count, ∀ j < i, AddressSpaces.page (pageAt (virt + page * pageSize) i) ≠
          AddressSpaces.page (pageAt (virt + page * pageSize) j)) →
        (mapPages cr3 virt phys flags count page vm).1 = .ok () →
        (∀ i < count, (mapPages cr3 virt phys flags count page vm).2.translate cr3
          (pageAt (virt + page * pageSize) i) =
            some (pageAt (phys + page * pageSize) i &&& addrMask)) ∧
        ∀ v, UserAddress v → (∀ i < count,
            AddressSpaces.page v ≠ AddressSpaces.page (pageAt (virt + page * pageSize) i)) →
          (mapPages cr3 virt phys flags count page vm).2.translate cr3 v = vm.translate cr3 v) := by
  induction count generalizing page vm level with
  | zero =>
    exact ⟨level, sep, .refl _ _ _, fun _ _ =>
      ⟨fun i hi => absurd hi (Nat.not_lt_zero i), fun _ _ _ => rfl⟩⟩
  | succ count ih =>
    have hhere := huser 0 (Nat.succ_pos _)
    rw [pageAt_zero] at hhere
    have hmaps := mapPage_maps sep hroot hhere (phys + page * pageSize) flags
    obtain ⟨level', sep', hfirst⟩ :=
      mapPage_extends sep hroot hhere (phys + page * pageSize) flags (P := P)
    rw [mapPages]
    generalize vm.mapPage cr3 (virt + page * pageSize) (phys + page * pageSize) flags = result
      at hmaps hfirst sep' ⊢
    obtain ⟨answer, vm'⟩ := result
    cases answer with
    | error e =>
      refine ⟨level', sep', hfirst, ?_⟩
      intro _ hok
      cases hok
    | ok =>
      obtain ⟨level'', sep'', hextends, hrest⟩ := ih sep' (page + 1) fun i hi => by
        rw [← pageAt_succ]
        exact huser (i + 1) (Nat.succ_lt_succ hi)
      simp only [← pageAt_succ] at hrest
      refine ⟨level'', sep'', hfirst.trans hextends, fun hdistinct hok => ?_⟩
      obtain ⟨hinside, hother⟩ := hrest (fun i hi j hj =>
        hdistinct (i + 1) (Nat.succ_lt_succ hi) (j + 1) (Nat.succ_lt_succ hj)) hok
      refine ⟨?_, ?_⟩
      · intro i hi
        cases i with
        | zero =>
          rw [pageAt_zero, pageAt_zero, hother _ hhere]
          · exact hmaps.mapped rfl
          · intro j hj
            have hne := hdistinct (j + 1) (Nat.succ_lt_succ hj) 0 (Nat.succ_pos j)
            rw [pageAt_zero] at hne
            exact hne.symm
        | succ i => exact hinside i (Nat.lt_of_succ_lt_succ hi)
      · intro v hv hne
        rw [hother v hv fun i hi => hne (i + 1) (Nat.succ_lt_succ hi)]
        have hnot := hne 0 (Nat.succ_pos _)
        rw [pageAt_zero] at hnot
        exact hmaps.other rfl cr3 v hroot hv (.inr hnot)

/-- The pages that the loop of `map_range` has mapped when it returns, with their frames. -/
def mappedPages (cr3 virt phys : BitVec 64) (flags : MapFlags) :
    Nat → BitVec 64 → Vmm → List (BitVec 64 × BitVec 64)
  | 0, _, _ => []
  | pages + 1, page, vm =>
      match vm.mapPage cr3 (virt + page * pageSize) (phys + page * pageSize) flags with
      | (.error _, _) => []
      | (.ok (), vm) => (virt + page * pageSize, phys + page * pageSize) ::
          mappedPages cr3 virt phys flags pages (page + 1) vm

/-- Consecutive pages and their frames. -/
def framedPages (virt phys : BitVec 64) (count : Nat) : List (BitVec 64 × BitVec 64) :=
  (List.range count).map fun i => (pageAt virt i, pageAt phys i)

theorem mem_framedPages {phys : BitVec 64} {m : BitVec 64 × BitVec 64} :
    m ∈ framedPages virt phys count ↔ ∃ i < count, (pageAt virt i, pageAt phys i) = m := by
  simp only [framedPages, List.mem_map, List.mem_range]

theorem mappedPages_eq (page : BitVec 64) (count : Nat) (vm : Vmm) :
    ∃ n ≤ count, mappedPages cr3 virt phys flags count page vm =
        framedPages (virt + page * pageSize) (phys + page * pageSize) n ∧
      ((mapPages cr3 virt phys flags count page vm).1 = .ok () → n = count) := by
  induction count generalizing page vm with
  | zero => exact ⟨0, Nat.le_refl _, rfl, fun _ => rfl⟩
  | succ count ih =>
    rw [mappedPages, mapPages]
    generalize vm.mapPage cr3 _ _ flags = result
    obtain ⟨answer, vm'⟩ := result
    cases answer with
    | error e => exact ⟨0, Nat.zero_le _, rfl, fun h => by cases h⟩
    | ok =>
      obtain ⟨n, hn, hpages, hall⟩ := ih (page + 1) vm'
      refine ⟨n + 1, Nat.succ_le_succ hn, ?_, fun hok => congrArg (· + 1) (hall hok)⟩
      dsimp only
      rw [hpages, framedPages, framedPages, List.range_succ_eq_map, List.map_cons, List.map_map,
        pageAt_zero, pageAt_zero]
      simp only [Function.comp_def, pageAt_succ]

end MapPages

theorem createAddressSpace_failed (sep : Separated vm roots level) {e : MapError}
    (hcreate : vm.createAddressSpace = (.error e, vm')) :
    Separated vm' roots level ∧ Extends P vm level vm' level := by
  unfold createAddressSpace allocTable at hcreate
  cases hheap : vm.heap with
  | nil =>
    rw [hheap] at hcreate
    cases hcreate
    exact ⟨sep, .refl _ _ _⟩
  | cons answer heap =>
    rw [hheap] at hcreate
    cases answer with
    | none =>
      cases hcreate
      refine ⟨sep.dropHeap hheap, rfl, fun _ _ => rfl, ?_, fun _ _ _ => rfl⟩
      exact fun t ht => ⟨ht.level, fun h => ht.heap (hheap ▸ List.mem_cons_of_mem _ h)⟩
    | some page => cases hcreate

/-- A new root is a page of the heap, and maps nothing for the user. -/
theorem createAddressSpace_extends (sep : Separated vm roots level) {cr3 : BitVec 64}
    (hcreate : vm.createAddressSpace = (.ok cr3, vm')) :
    (∃ level', Separated vm' (cr3 :: roots) level' ∧ Extends P vm level vm' level') ∧
      ∀ virt, UserAddress virt → vm'.translate cr3 virt = none := by
  have hsuccess := hcreate
  unfold createAddressSpace allocTable at hcreate
  cases hheap : vm.heap with
  | nil =>
    rw [hheap] at hcreate
    cases hcreate
  | cons answer heap =>
    rw [hheap] at hcreate
    cases answer with
    | none => cases hcreate
    | some page =>
      obtain ⟨hlevel, -, haligned⟩ := sep.fresh page (hheap ▸ List.mem_cons_self)
      have hsep := createAddressSpace_separated sep hheap
      rw [hsuccess] at hsep
      have hkernel : vm.kernelPml4 ≠ page := by
        intro h
        have hroot := sep.root _ sep.kernel
        rw [h, hlevel] at hroot
        cases hroot
      simp only [Prod.mk.injEq, Except.ok.injEq] at hcreate
      obtain ⟨rfl, hvm⟩ := hcreate
      refine ⟨⟨_, hsep, ?_, ?_, ?_, ?_⟩, ?_⟩
      · rw [← hvm]
      · intro i _
        rw [← hvm]
        simp [hkernel]
      · rintro t ⟨ht, hfresh⟩
        rw [hheap, List.mem_cons, not_or, Option.some.injEq] at hfresh
        refine ⟨(Function.update_of_ne hfresh.1 _ _).trans ht, ?_⟩
        rw [← hvm]
        exact hfresh.2
      · rintro t ⟨-, hfresh⟩ -
        rw [hheap, List.mem_cons, not_or, Option.some.injEq] at hfresh
        rw [← hvm]
        simp [hfresh.1]
      · intro virt huser
        have hempty : vm'.tableIfPresent (page &&& addrMask) (pml4Index virt) = 0 := by
          have hindex : 1 ≤ (pml4Index virt).val ∧ (pml4Index virt).val < 256 := huser
          rw [← hvm, haligned]
          simp [tableIfPresent, hindex]
        unfold Vmm.translate
        dsimp only
        rw [if_pos hempty]

end Extends

end KazuOS.Memory.AddressSpaces

namespace KazuOS.Kernel

open KazuOS.Lib KazuOS.Memory KazuOS.Memory.AddressSpaces FrameOwnership

/-- An entry of the two upper levels that maps a page of its own size. -/
def largePage : BitVec 64 := 1 <<< 7

/-- The tables below the entries that every address space has from the kernel, with their
level. -/
inductive SharedTable (vm : Vmm) : Nat → BitVec 64 → Prop where
  | entry {i : Fin 512} {t : BitVec 64} (shared : ¬UserIndex i)
      (child : vm.child vm.kernelPml4 i = some t) : SharedTable vm 3 t
  | next {n : Nat} {t u : BitVec 64} {i : Fin 512} (table : SharedTable vm (n + 2) t)
      (small : vm.mem t i &&& largePage = 0) (child : vm.child t i = some u) :
      SharedTable vm (n + 1) u

def frameAddr (frame : Nat) : BitVec 64 := BitVec.ofNat 64 (frame * 4096)

/-- What the free frames are not: tables, pages of the kernel heap, or beyond the memory that
the first entry of the kernel's root maps to itself. -/
structure Layout (k : Kernel) (roots : List (BitVec 64)) (level : BitVec 64 → Nat) : Prop where
  separated : Separated k.vm roots level
  sized : k.pmm.Sized
  identity : k.pmm.totalFrames ≤ 2 ^ 27
  frames : ∀ frame, FreeFrame k.pmm frame → Outside k.vm level (frameAddr frame)
  shared : ∀ n t, SharedTable k.vm n t → Outside k.vm level t ∧
    ∀ frame, FreeFrame k.pmm frame → t ≠ frameAddr frame

/-- The pages of the frames that are free. -/
def FreePage (pmm : Pmm) (t : BitVec 64) : Prop := ∃ frame, FreeFrame pmm frame ∧ t = frameAddr frame

theorem frameAddr_toNat {frame : Nat} (h : frame ≤ 2 ^ 27) :
    (frameAddr frame).toNat = frame * 4096 := by
  rw [frameAddr, BitVec.toNat_ofNat]
  omega

/-- What lies in a run of frames lies on one of its pages. -/
theorem pageBase_of_between {start count lo : Nat} {s : Store 64} {a : BitVec 64}
    (hbound : start + count ≤ 2 ^ 27) (h : Between (frameAddr start) lo (count * 4096) s)
    (hcovers : s.Covers a) : ∃ j < count, pageBase a = frameAddr (start + j) := by
  obtain ⟨o, haddr, -, hend⟩ := h
  rw [Store.covers_iff haddr (by omega), BitVec.toNat_sub, frameAddr_toNat (by omega)] at hcovers
  have ha := a.isLt
  refine ⟨a.toNat / 4096 - start, by omega, ?_⟩
  apply BitVec.eq_of_toNat_eq
  rw [pageBase_toNat, frameAddr_toNat (by omega)]
  omega

theorem between_self (a : BitVec 64) {bytes : List UInt8} {hi : Nat} (h : bytes.length ≤ hi) :
    Between a 0 hi ⟨a, bytes⟩ :=
  ⟨0, by simp, Nat.le_refl _, by simpa using h⟩

section Stores

variable {k : Kernel} {roots : List (BitVec 64)} {level : BitVec 64 → Nat}

variable {roots' : List (BitVec 64)} {ss : List (Store 64)} {start count : Nat} {vm : Vmm}

theorem stores_in_run (hbound : start + count ≤ 2 ^ 27)
    (hss : ∀ s ∈ ss, ∃ lo, Between (frameAddr start) lo (count * 4096) s) :
    ∀ s ∈ ss, ∀ a, s.Covers a → ∃ j < count, pageBase a = frameAddr (start + j) := by
  intro s hs a hcovers
  obtain ⟨lo, hbetween⟩ := hss s hs
  exact pageBase_of_between hbound hbetween hcovers

/-- Stores into frames of a run are seen in the pages of these frames only. -/
theorem extends_stores {P : BitVec 64 → Prop} (sep : Separated vm roots level)
    (hP : ∀ t, P t → level t = 0) (hss : ∀ s ∈ ss, ∀ a, s.Covers a → P (pageBase a)) :
    Separated (vm.stores ss) roots level ∧ Extends P vm level (vm.stores ss) level := by
  have hoff : ∀ s ∈ ss, KeepsOff level s := fun s hs a hcovers => hP _ (hss s hs a hcovers)
  refine ⟨sep.stores hoff, stores_kernelPml4 vm ss, ?_, ?_, ?_⟩
  · intro i _
    have hroot : level vm.kernelPml4 ≠ 0 := by
      rw [sep.root _ sep.kernel]
      decide
    rw [mem_stores_table hoff vm hroot]
  · exact fun t ht => ⟨ht.level, by rw [stores_heap]; exact ht.heap⟩
  · intro t _ ht
    refine mem_stores vm ss ?_
    rintro s hs a hcovers rfl
    exact ht (hss s hs a hcovers)

/-- Memory that a load has led to: separated, and outside the tables changed in free frames
only. -/
def Reached (k : Kernel) (level : BitVec 64 → Nat) (roots : List (BitVec 64)) (vm : Vmm) : Prop :=
  ∃ level', Separated vm roots level' ∧ Extends (FreePage k.pmm) k.vm level vm level'

theorem Reached.stores (lay : Layout k roots level) (h : Reached k level roots' vm)
    (hbound : start + count ≤ 2 ^ 27) (hrun : ∀ j < count, FreeFrame k.pmm (start + j))
    (hss : ∀ s ∈ ss, ∃ lo, Between (frameAddr start) lo (count * 4096) s) :
    Reached k level roots' (vm.stores ss) := by
  obtain ⟨level', sep, hextends⟩ := h
  have hP : ∀ t, FreePage k.pmm t → level' t = 0 := by
    rintro t ⟨frame, hfree, rfl⟩
    exact (hextends.outside _ (lay.frames frame hfree)).level
  have hpages : ∀ s ∈ ss, ∀ a, s.Covers a → FreePage k.pmm (pageBase a) := by
    intro s hs a hcovers
    obtain ⟨j, hj, hpage⟩ := stores_in_run hbound hss s hs a hcovers
    exact ⟨_, hrun j hj, hpage⟩
  obtain ⟨sep', hstores⟩ := extends_stores sep hP hpages
  exact ⟨level', sep', hextends.trans hstores⟩

theorem Reached.mapRange (h : Reached k level roots' vm)
    {cr3 virt : BitVec 64} (hroot : cr3 ∈ roots') {count : Nat}
    (huser : ∀ i < count, UserAddress (pageAt virt i)) (phys : BitVec 64) (flags : MapFlags) :
    Reached k level roots' (vm.mapRange cr3 virt phys (count * 4096) flags).2 := by
  obtain ⟨level', sep, hextends⟩ := h
  have hzero : virt + 0 * pageSize = virt := by simp
  obtain ⟨level'', sep', hmapped, -⟩ := mapPages_extends phys flags sep
    (by rwa [sep.root_mask hroot]) 0 (by rwa [hzero])
  rw [Vmm.mapRange, divCeil_pages]
  exact ⟨level'', sep', hextends.trans hmapped⟩

variable {args : List (List UInt8)} {code : List UInt8} {pmm pmm' : Pmm}

/-- The frames of a run are free before it is taken. -/
theorem free_run (h : TakesRun start count pmm pmm') : ∀ j < count, FreeFrame pmm (start + j) := by
  intro j hj
  have hbound := h.bound
  exact ⟨by omega, h.free _ (by omega) (by omega)⟩

theorem userAddress_stack : ∀ i < stackPages, UserAddress (pageAt userStackBase i) := by
  decide

theorem length_le_codePages (code : List UInt8) : code.length ≤ codePages code * 4096 := by
  unfold codePages divCeil
  omega

theorem code_between (start : Nat) (code : List UInt8) :
    ∀ s ∈ [(⟨frameAddr start, List.replicate (codePages code * 4096) 0⟩ : Store 64),
        ⟨frameAddr start, code⟩],
      ∃ lo, Between (frameAddr start) lo (codePages code * 4096) s := by
  rw [List.forall_mem_cons, List.forall_mem_singleton]
  exact ⟨⟨0, between_self _ (by rw [List.length_replicate])⟩,
    ⟨0, between_self _ (length_le_codePages code)⟩⟩

theorem Reached.mapCode (lay : Layout k roots level)
    (h : Reached k level roots' vm) {cr3 entry : BitVec 64} (hroot : cr3 ∈ roots') {pmm : Pmm}
    {start : Nat} (htakes : TakesRun start (codePages code) k.pmm pmm)
    (huser : ∀ i < codePages code, UserAddress (pageAt (codeBase entry) i)) :
    Reached k level roots' (mapCode vm cr3 entry (start * frameSize) code).2 := by
  have hbound := Nat.le_trans htakes.bound lay.identity
  have hstores := h.stores lay hbound (free_run htakes) (code_between start code)
  exact hstores.mapRange hroot huser _ _

theorem stack_between (start : Nat) :
    ∀ s ∈ [(⟨frameAddr start, List.replicate (stackPages * 4096) 0⟩ : Store 64)],
      ∃ lo, Between (frameAddr start) lo (stackPages * 4096) s := by
  rw [List.forall_mem_singleton]
  exact ⟨0, between_self _ (by rw [List.length_replicate])⟩

theorem Reached.mapStack (lay : Layout k roots level)
    (h : Reached k level roots' vm) {cr3 : BitVec 64} (hroot : cr3 ∈ roots') {start : Nat}
    (hbound : start + stackPages ≤ 2 ^ 27) (hrun : ∀ j < stackPages, FreeFrame k.pmm (start + j)) :
    Reached k level roots' (mapStack vm cr3 (start * frameSize)).2 := by
  have hstores := h.stores lay hbound hrun (stack_between start)
  exact hstores.mapRange hroot userAddress_stack _ _

/-- Arguments that the stack has room for. -/
def ArgsFit (args : List (List UInt8)) : Prop := args = [] ∨ argsSize args ≤ userStackSize

theorem pushed_between (start : Nat) (hfits : ArgsFit args) :
    ∀ s ∈ (pushArgsOntoStack (frameAddr start) userStackBase args).stores,
      ∃ lo, Between (frameAddr start) lo (stackPages * 4096) s := by
  intro s hs
  by_cases hne : args = []
  · rw [hne, pushArgsOntoStack, if_pos rfl] at hs
    exact absurd hs List.not_mem_nil
  · exact ⟨_, stores_in_stack _ hne (hfits.resolve_left hne) s hs⟩

/-- The stack's frames are free before the load. -/
theorem stack_frames (lay : Layout k roots level) {count codePhys stackPhys : Nat}
    (frames : k.pmm.allocFrames count = (some codePhys, pmm))
    (stack : pmm.allocFrames stackPages = (some stackPhys, pmm')) :
    ∃ start, stackPhys = start * frameSize ∧ start + stackPages ≤ 2 ^ 27 ∧
      ∀ j < stackPages, FreeFrame k.pmm (start + j) := by
  obtain ⟨codeStart, -, htakes⟩ := allocFrames_takes lay.sized frames
  obtain ⟨start, hphys, htakes'⟩ := allocFrames_takes (htakes.sized lay.sized) stack
  have hbound := Nat.le_trans (htakes.total ▸ htakes'.bound) lay.identity
  exact ⟨start, hphys, hbound, fun j hj => htakes.free_sub (free_run htakes' j hj)⟩

theorem createProcessSpace_reached (lay : Layout k roots level) {entry : BitVec 64}
    (huser : ∀ i < codePages code, UserAddress (pageAt (codeBase entry) i)) (hfits : ArgsFit args) :
    ∃ roots', Reached k level roots' (k.createProcessSpace entry code args).2.vm ∧
      ∀ space, (k.createProcessSpace entry code args).1 = some space → space.cr3 ∈ roots' := by
  have hbuilds := createProcessSpace_builds k entry code args
  generalize k.createProcessSpace entry code args = result at hbuilds
  have hself : ∀ cr3 : BitVec 64, cr3 ∈ cr3 :: roots := fun _ => List.mem_cons_self
  have hcreated : ∀ {cr3 vm}, k.vm.createAddressSpace = (.ok cr3, vm) →
      Reached k level (cr3 :: roots) vm :=
    fun hcreate => (createAddressSpace_extends lay.separated hcreate).1
  have hcode : ∀ {cr3 vm codePhys pmm r vm'}, k.vm.createAddressSpace = (.ok cr3, vm) →
      k.pmm.allocFrames (codePages code) = (some codePhys, pmm) →
      mapCode vm cr3 entry codePhys code = (r, vm') → Reached k level (cr3 :: roots) vm' := by
    intro cr3 vm codePhys pmm r vm' create frames map
    obtain ⟨start, rfl, htakes⟩ := allocFrames_takes lay.sized frames
    have hmapped := (hcreated create).mapCode lay (hself cr3) htakes huser
    rwa [map] at hmapped
  cases hbuilds with
  | noSpace create =>
    exact ⟨roots, ⟨level, createAddressSpace_failed lay.separated create⟩, fun _ h => nomatch h⟩
  | noCode create frames => exact ⟨_, hcreated create, fun _ h => nomatch h⟩
  | unmapped create frames map | noStack create frames map stack =>
    exact ⟨_, hcode create frames map, fun _ h => nomatch h⟩
  | stackUnmapped create frames map stack stackMap =>
    obtain ⟨start, rfl, hbound, hrun⟩ := stack_frames lay frames stack
    have hstack := (hcode create frames map).mapStack lay (hself _) hbound hrun
    rw [stackMap] at hstack
    exact ⟨_, hstack, fun _ h => nomatch h⟩
  | built create frames map stack stackMap push =>
    obtain ⟨start, rfl, hbound, hrun⟩ := stack_frames lay frames stack
    have hstack := (hcode create frames map).mapStack lay (hself _) hbound hrun
    rw [stackMap] at hstack
    refine ⟨_, hstack.stores lay hbound hrun (push ▸ pushed_between start hfits), ?_⟩
    rintro space hspace
    obtain rfl := Option.some.inj hspace
    exact hself _

end Stores

/-! Where the code goes. -/

theorem page_pageAt (entry : BitVec 64) (i : Nat) :
    page (pageAt (codeBase entry) i) = (page entry + i) % 2 ^ 36 := by
  have hbase : (codeBase entry).toNat = entry.toNat / 4096 * 4096 := pageBase_toNat entry
  have hsize : (pageSize : BitVec 64).toNat = 4096 := by decide
  unfold page pageAt
  rw [BitVec.toNat_add, BitVec.toNat_mul, BitVec.toNat_ofNat, hbase, hsize]
  omega

/-- The first page of the stack. -/
def stackPage : Nat := 0x807FFF0

theorem page_stack : ∀ j < stackPages, page (pageAt userStackBase j) = stackPage + j := by
  decide

/-- The image starts at or above the user half, ends in it, and does not reach into the stack. -/
def LoadsInUserHalf (entry : BitVec 64) (pages : Nat) : Prop :=
  2 ^ 27 ≤ page entry ∧ page entry + pages ≤ 2 ^ 35 ∧
    (page entry + pages ≤ stackPage ∨ stackPage + stackPages ≤ page entry)

variable {entry : BitVec 64} {pages : Nat}

theorem userAddress_code_iff (entry : BitVec 64) (hpages : 1 ≤ pages) :
    (∀ i < pages, UserAddress (pageAt (codeBase entry) i)) ↔
      2 ^ 27 ≤ page entry ∧ page entry + pages ≤ 2 ^ 35 := by
  have hlt : page entry < 2 ^ 36 := Nat.mod_lt _ (by decide)
  simp only [userAddress_iff, UserPage, page_pageAt]
  constructor
  · intro h
    have hfirst := h 0 hpages
    refine ⟨by omega, Nat.not_lt.mp fun hlong => ?_⟩
    have hlast := h (2 ^ 35 - page entry) (by omega)
    omega
  · intro h i hi
    omega

theorem apart_code_iff (hpages : 1 ≤ pages) (huser : page entry + pages ≤ 2 ^ 35) :
    (∀ i < pages, ∀ j < stackPages,
      page (pageAt (codeBase entry) i) ≠ page (pageAt userStackBase j)) ↔
      page entry + pages ≤ stackPage ∨ stackPage + stackPages ≤ page entry := by
  constructor
  · intro h
    by_contra hoverlap
    rw [not_or, Nat.not_le, Nat.not_le] at hoverlap
    by_cases hbelow : page entry ≤ stackPage
    · have hne := h (stackPage - page entry) (by omega) 0 (by decide)
      rw [page_pageAt, page_stack 0 (by decide)] at hne
      omega
    · have hne := h 0 hpages (page entry - stackPage) (by omega)
      rw [page_pageAt, page_stack _ (by omega)] at hne
      omega
  · intro h i hi j hj
    rw [page_pageAt, page_stack j hj]
    omega

/-- The pages that the loader has mapped when it returns, with their frames. -/
def loadedPages (k : Kernel) (entry : BitVec 64) (code : List UInt8) : List (BitVec 64 × BitVec 64) :=
  match k.vm.createAddressSpace, k.pmm.allocFrames (codePages code) with
  | (.ok cr3, vm), (some codePhys, pmm) =>
      let mapped := mappedPages cr3 (codeBase entry) (BitVec.ofNat 64 codePhys) .userReadWrite
        (codePages code) 0 (codeMemory vm codePhys code)
      match mapCode vm cr3 entry codePhys code, pmm.allocFrames stackPages with
      | (.ok (), vm), (some stackPhys, _) =>
          mapped ++ mappedPages cr3 userStackBase (BitVec.ofNat 64 stackPhys)
            MapFlags.userReadWrite.noExecute stackPages 0 (stackMemory vm stackPhys)
      | _, _ => mapped
  | _, _ => []

theorem mappedPages_zero_eq (cr3 virt phys : BitVec 64) (flags : MapFlags) (count : Nat) (vm : Vmm) :
    ∃ n ≤ count, mappedPages cr3 virt phys flags count 0 vm = framedPages virt phys n ∧
      ((vm.mapRange cr3 virt phys (count * 4096) flags).1 = .ok () → n = count) := by
  have hzero : ∀ a : BitVec 64, a + 0 * pageSize = a := by simp
  have hpages := @mappedPages_eq cr3 virt phys flags 0 count vm
  rw [hzero, hzero] at hpages
  rwa [Vmm.mapRange, divCeil_pages]

theorem loadedPages_user {k : Kernel} {code : List UInt8}
    (huser : ∀ i < codePages code, UserAddress (pageAt (codeBase entry) i)) :
    ∀ m ∈ k.loadedPages entry code, UserAddress m.1 := by
  have hmapped : ∀ {cr3 virt phys flags count vm}, (∀ i < count, UserAddress (pageAt virt i)) →
      ∀ m ∈ mappedPages cr3 virt phys flags count 0 vm, UserAddress m.1 := by
    intro cr3 virt phys flags count vm huser m hm
    obtain ⟨n, hn, hpages, -⟩ := mappedPages_zero_eq cr3 virt phys flags count vm
    rw [hpages] at hm
    obtain ⟨i, hi, rfl⟩ := mem_framedPages.mp hm
    exact huser i (by omega)
  unfold loadedPages
  split
  · dsimp only
    split
    · intro m hm
      obtain hm | hm := List.mem_append.mp hm
      · exact hmapped huser m hm
      · exact hmapped userAddress_stack m hm
    · exact hmapped huser
  · exact nofun

/-- The kernel's own entries and the tables below them are as they were. -/
structure KeepsKernel (vm vm' : Vmm) : Prop where
  entries : ∀ i, ¬UserIndex i → vm'.mem vm.kernelPml4 i = vm.mem vm.kernelPml4 i
  tables : ∀ n t, SharedTable vm n t → vm'.mem t = vm.mem t

section Keeps

variable {k : Kernel} {roots : List (BitVec 64)} {level : BitVec 64 → Nat}

variable {vm : Vmm}

theorem Reached.keepsKernel (lay : Layout k roots level) {roots' : List (BitVec 64)}
    (h : Reached k level roots' vm) : KeepsKernel k.vm vm := by
  obtain ⟨level', -, hextends⟩ := h
  refine ⟨hextends.shared, ?_⟩
  intro n t ht
  obtain ⟨houtside, hframes⟩ := lay.shared n t ht
  refine hextends.mem t houtside ?_
  rintro ⟨frame, hfree, heq⟩
  exact hframes frame hfree heq

theorem Reached.root (h : Reached k level roots vm) {cr3 : BitVec 64} (hroot : cr3 ∈ roots) :
    ∀ i, ¬UserIndex i → vm.mem cr3 i = k.vm.mem k.vm.kernelPml4 i := by
  obtain ⟨level', sep, hextends⟩ := h
  intro i hi
  rw [sep.shared cr3 hroot i hi, hextends.kernel]
  exact hextends.shared i hi

end Keeps

/-! When the load succeeds. -/

section Succeeds

variable {n : Nat} {vm : Vmm}

theorem createAddressSpace_supplied (h : n + 1 ≤ vm.supply) :
    ∃ cr3 vm', vm.createAddressSpace = (.ok cr3, vm') ∧ n ≤ vm'.supply := by
  unfold Vmm.supply at h
  unfold Vmm.createAddressSpace Vmm.allocTable
  cases hheap : vm.heap with
  | nil => simp [hheap] at h
  | cons answer rest =>
    cases answer with
    | none => simp [hheap] at h
    | some page =>
      refine ⟨_, _, rfl, ?_⟩
      rw [hheap] at h
      exact Nat.le_of_succ_le_succ h

theorem aligned_frame (start : Nat) : Aligned (BitVec.ofNat 64 (start * frameSize)) := by
  rw [aligned_iff, BitVec.toNat_ofNat, show frameSize = 4096 from rfl]
  omega

theorem aligned_codeBase (entry : BitVec 64) : Aligned (codeBase entry) := by
  have hbase : (codeBase entry).toNat = entry.toNat / 4096 * 4096 := pageBase_toNat entry
  rw [aligned_iff, hbase]
  omega

theorem aligned_stack : Aligned userStackBase := aligned_iff.mpr (by decide)

theorem mapRange_succeeds (cr3 : BitVec 64) {virt phys : BitVec 64} (hvirt : Aligned virt)
    (hphys : Aligned phys) (flags : MapFlags) {pages : Nat} (h : n + 3 * pages ≤ vm.supply) :
    ∃ vm', vm.mapRange cr3 virt phys (pages * 4096) flags = (.ok (), vm') ∧ n ≤ vm'.supply := by
  have hmaps : (Vmm.mapPages cr3 virt phys flags pages 0 vm).1 = .ok () ∧ _ :=
    mapPages_supplied hvirt hphys flags 0 h
  obtain ⟨hok, hsupply⟩ := hmaps
  rw [Vmm.mapRange, divCeil_pages]
  exact ⟨_, Prod.ext hok rfl, hsupply⟩

variable {pmm pmm' : Pmm}

theorem allocFrames_aligned {count base : Nat}
    (h : pmm.allocFrames count = (some base, pmm')) : ∃ start, base = start * frameSize := by
  have hallocates := allocFrames_allocates pmm count
  rw [h] at hallocates
  obtain ⟨start, hbase, -⟩ := hallocates.found base rfl
  exact ⟨start, hbase⟩

/-- With frames for code and stack and three page tables for each page, the space is built. -/
theorem createProcessSpace_succeeds {k : Kernel} (entry : BitVec 64) {code : List UInt8}
    (args : List (List UInt8)) (htables : 1 + 3 * (codePages code + stackPages) ≤ k.vm.supply)
    {codePhys stackPhys : Nat} (hcode : k.pmm.allocFrames (codePages code) = (some codePhys, pmm))
    (hstack : pmm.allocFrames stackPages = (some stackPhys, pmm')) :
    ∃ space, (k.createProcessSpace entry code args).1 = some space := by
  obtain ⟨start, rfl⟩ := allocFrames_aligned hcode
  obtain ⟨start', rfl⟩ := allocFrames_aligned hstack
  have hroom : 3 * stackPages + 3 * codePages code + 1 ≤ k.vm.supply := by omega
  obtain ⟨cr3, vm, hcreate, hsupply⟩ := createAddressSpace_supplied hroom
  have hmemory : 3 * stackPages + 3 * codePages code ≤
      (codeMemory vm (start * frameSize) code).supply := hsupply
  obtain ⟨vm', hmap, hsupply'⟩ := mapRange_succeeds cr3 (aligned_codeBase entry)
    (aligned_frame start) .userReadWrite hmemory
  have hmemory' : 0 + 3 * stackPages ≤ (stackMemory vm' (start' * frameSize)).supply := by
    rw [Nat.zero_add]
    exact hsupply'
  obtain ⟨vm'', hmap', -⟩ := mapRange_succeeds cr3 aligned_stack (aligned_frame start')
    MapFlags.userReadWrite.noExecute hmemory'
  have hbuilds := createProcessSpace_builds k entry code args
  generalize k.createProcessSpace entry code args = result at hbuilds
  cases hbuilds with
  | noSpace create =>
    rw [hcreate] at create
    cases create
  | noCode create frames =>
    rw [hcode] at frames
    cases frames
  | unmapped create frames map =>
    rw [hcreate] at create
    rw [hcode] at frames
    cases create
    cases frames
    rw [mapCode, hmap] at map
    cases map
  | noStack create frames map stack =>
    rw [hcode] at frames
    cases frames
    rw [hstack] at stack
    cases stack
  | stackUnmapped create frames map stack stackMap =>
    rw [hcreate] at create
    rw [hcode] at frames
    cases create
    cases frames
    rw [mapCode, hmap] at map
    cases map
    rw [hstack] at stack
    cases stack
    rw [mapStack, show userStackSize = stackPages * 4096 from rfl, hmap'] at stackMap
    cases stackMap
  | built => exact ⟨_, rfl⟩

end Succeeds

/-! A small machine. -/

/-- Page tables for a space of two pages of code. -/
def loaderTables : List (Option (BitVec 64)) :=
  (List.range 55).map fun i => some (frameAddr (2 + i))

theorem loaderKernel_separated : Separated (loaderKernel loaderTables).vm [0x1000]
    (Function.update (fun _ => 0) 0x1000 4) := by
  have hheap : ∀ i < 55, frameAddr (2 + i) ≠ 0x1000 ∧ frameAddr (2 + i) ≠ 0 ∧
      frameAddr (2 + i) &&& addrMask = frameAddr (2 + i) := by decide
  refine separated_of_empty (by decide) (by decide) ?_ ?_ (by decide)
  · intro i hi
    have hne : i ≠ 0 := by
      rintro rfl
      exact absurd hi.1 (by decide)
    simp [Vmm.child, loaderKernel, hne]
  · intro p hp
    obtain ⟨i, hi, heq⟩ := List.mem_map.mp hp
    obtain rfl := Option.some.inj heq
    exact hheap i (List.mem_range.mp hi)

theorem loaderKernel_shared {n : Nat} {t : BitVec 64}
    (h : SharedTable (loaderKernel loaderTables).vm n t) : t = 0x3F000 := by
  induction h with
  | @entry i t shared child =>
    by_cases hi : i = 0
    · subst hi
      have hentry : (loaderKernel loaderTables).vm.child 0x1000 0 = some 0x3F000 := by decide
      exact Option.some.inj (child.symm.trans hentry)
    · simp [Vmm.child, loaderKernel, hi] at child
  | next table small child ih =>
    subst ih
    simp [Vmm.child, loaderKernel] at child

theorem loaderKernel_layout : Layout (loaderKernel loaderTables) [0x1000]
    (Function.update (fun _ => 0) 0x1000 4) := by
  have hfree : ∀ frame < 128, Pmm.getBit (loaderKernel loaderTables).pmm.bitmap frame = false →
      frameAddr frame ≠ 0x1000 ∧ some (frameAddr frame) ∉ loaderTables ∧
        0x3F000 ≠ frameAddr frame := by decide +kernel
  refine ⟨loaderKernel_separated, rfl, by decide, ?_, ?_⟩
  · rintro frame ⟨hlt, hbit⟩
    obtain ⟨hroot, hheap, -⟩ := hfree frame hlt hbit
    exact ⟨Function.update_of_ne hroot _ _, hheap⟩
  · intro n t ht
    obtain rfl := loaderKernel_shared ht
    refine ⟨⟨by decide, by decide⟩, ?_⟩
    rintro frame ⟨hlt, hbit⟩
    exact (hfree frame hlt hbit).2.2

theorem retImage_parses : parseKxe retImage = some ⟨userBase, [0xC3], 0⟩ := by
  decide +kernel

theorem loaderKernel_frames : ∃ pmm pmm',
    (loaderKernel loaderTables).pmm.allocFrames (codePages [0xC3]) = (some 262144, pmm) ∧
      pmm.allocFrames stackPages = (some 266240, pmm') := by
  have hcode : ((loaderKernel loaderTables).pmm.allocFrames (codePages [0xC3])).1 = some 262144 := by
    decide +kernel
  have hstack : (((loaderKernel loaderTables).pmm.allocFrames (codePages [0xC3])).2.allocFrames
      stackPages).1 = some 266240 := by
    decide +kernel
  exact ⟨_, _, Prod.ext hcode rfl, Prod.ext hstack rfl⟩

theorem loaderKernel_loads (entry : BitVec 64) :
    ∃ space, ((loaderKernel loaderTables).createProcessSpace entry [0xC3] []).1 = some space := by
  obtain ⟨pmm, pmm', hcode, hstack⟩ := loaderKernel_frames
  exact createProcessSpace_succeeds entry [] (by decide) hcode hstack

end KazuOS.Kernel
