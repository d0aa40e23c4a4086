import KazuOS.Kernel.Effects
import KazuOS.Memory.Release

/-! What teardown gives back of a process's memory: its records in the five tables and
the frames they cover. -/
namespace KazuOS.Kernel

open KazuOS.Memory KazuOS.Memory.Pmm KazuOS.Memory.AddressSpaces KazuOS.Task KazuOS.Task.Tasks

/-! Page by page. -/

/-- Consecutive pages from an address on. -/
def pagesFrom (virt : BitVec 64) (pages : Nat) : List (BitVec 64) :=
  (List.range pages).map fun i => virt + BitVec.ofNat 64 (i * 4096)

theorem unmapRange_eq (vm : Vmm) (cr3 virt : BitVec 64) (size : Nat) :
    unmapRange vm cr3 virt size =
      (pagesFrom virt (divCeil size 4096)).foldl (fun vm v => vm.unmapPage cr3 v) vm := by
  rw [pagesFrom, List.foldl_map]
  rfl

theorem freeUserPages_eq (cr3 : BitVec 64) (state : Pmm × Vmm) (virt : BitVec 64) (pages : Nat) :
    freeUserPages cr3 state virt pages = (pagesFrom virt pages).foldl (freeUserPage cr3) state := by
  rw [pagesFrom, List.foldl_map]
  rfl

/-- The frame behind a page. -/
def frameAt (vm : Vmm) (cr3 virt : BitVec 64) : Option Nat :=
  (vm.translate cr3 virt).map (·.toNat / frameSize)

variable {pid : Nat} {pmm : Pmm} {shm : Shm}

theorem frees_freeUserPage (hpmm : pmm.Sized) (vm : Vmm) (cr3 virt : BitVec 64) :
    Frees (frameAt vm cr3 virt = some ·) pmm (freeUserPage cr3 (pmm, vm) virt).1 := by
  unfold freeUserPage frameAt
  dsimp only
  cases vm.translate cr3 virt with
  | none => exact (Frees.refl pmm).congr fun frame => by simp
  | some phys => exact (frees_freeFrame hpmm phys.toNat).congr fun frame => by simp [eq_comm]

/-- The loop over pages frees what they were mapped to at its start. A page met again is
unmapped by then. -/
theorem frees_freeUserPages {vm : Vmm} {roots : List (BitVec 64)} {level : BitVec 64 → Nat}
    (sep : Separated vm roots level) {cr3 : BitVec 64} (hroot : cr3 &&& addrMask ∈ roots)
    {pages : List (BitVec 64)} (huser : ∀ v ∈ pages, UserAddress v) (hpmm : pmm.Sized) :
    Frees (fun frame => ∃ v ∈ pages, frameAt vm cr3 v = some frame) pmm
      (pages.foldl (freeUserPage cr3) (pmm, vm)).1 := by
  induction pages generalizing vm level pmm with
  | nil => exact (Frees.refl pmm).congr fun frame => by simp
  | cons v rest ih =>
    have hfirst := frees_freeUserPage hpmm vm cr3 v
    have hunmaps := unmapPage_unmaps sep hroot (huser v List.mem_cons_self)
    obtain ⟨level', sep'⟩ := hunmaps.separated
    have hrest := ih sep' (fun w hw => huser w (List.mem_cons_of_mem v hw)) (hfirst.sized hpmm)
    refine (hfirst.trans hrest).congr fun frame => ?_
    have hlater : ∀ w ∈ rest, page w ≠ page v →
        frameAt (vm.unmapPage cr3 v) cr3 w = frameAt vm cr3 w := by
      intro w hw hne
      unfold frameAt
      rw [hunmaps.other cr3 w hroot (huser w (List.mem_cons_of_mem v hw)) (.inr hne)]
    constructor
    · rintro (hv | ⟨w, hw, hframe⟩)
      · exact ⟨v, List.mem_cons_self, hv⟩
      · by_cases hpage : page w = page v
        · rw [frameAt, translate_of_page_eq hpage, hunmaps.unmapped] at hframe
          cases hframe
        · exact ⟨w, List.mem_cons_of_mem v hw, hlater w hw hpage ▸ hframe⟩
    · rintro ⟨w, hw, hframe⟩
      by_cases hpage : page w = page v
      · rw [frameAt, translate_of_page_eq hpage] at hframe
        exact .inl hframe
      · rcases List.mem_cons.mp hw with rfl | hw
        · exact absurd rfl hpage
        · exact .inr ⟨w, hw, (hlater w hw hpage).trans hframe⟩

/-! Shared memory. -/

/-- The object without a process. -/
def withoutPid (pid : Nat) (shm : Shm) : Shm :=
  { shm with
    mappings := match shm.mappings.findIdx? (·.pid = pid) with
      | some pos => Lib.swapRemove shm.mappings pos
      | none => shm.mappings
    holders := shm.holders.filter (· ≠ pid) }

theorem unmapHolder_eq (pid : Nat) (cr3 : BitVec 64) (shm : Shm) (vm : Vmm) :
    { (unmapHolder pid cr3 shm vm).1 with
      holders := (unmapHolder pid cr3 shm vm).1.holders.filter (· ≠ pid) } = withoutPid pid shm := by
  unfold unmapHolder withoutPid
  obtain ⟨hidx, hfind, -⟩ | ⟨pos, m, hidx, hfind, -⟩ :=
    Lib.findIdx?_find?_cases (fun m : Mapping => decide (m.pid = pid)) shm.mappings
  · simp only [hidx, hfind]
  · simp only [hidx, hfind]

/-- The process holds the object or maps it. -/
def Shm.Names (shm : Shm) (pid : Nat) : Prop :=
  pid ∈ shm.holders ∨ ∃ m ∈ shm.mappings, m.pid = pid

theorem withoutPid_not_names
    (hone : shm.mappings.countP (·.pid = pid) ≤ 1) : ¬Shm.Names (withoutPid pid shm) pid := by
  rintro (hholds | ⟨m, hm, hmaps⟩)
  · simp [withoutPid] at hholds
  · unfold withoutPid at hm
    obtain ⟨hidx, -, hnone⟩ | ⟨pos, first, hidx, hfind, hget⟩ :=
      Lib.findIdx?_find?_cases (fun m : Mapping => decide (m.pid = pid)) shm.mappings
    · simp only [hidx] at hm
      exact absurd hmaps (by simpa using hnone m hm)
    · simp only [hidx] at hm
      have hcount := (Lib.perm_swapRemove hget).countP_eq (fun m : Mapping => decide (m.pid = pid))
      have hfirst : first.pid = pid := by simpa using List.find?_some hfind
      have hrest : 0 < (Lib.swapRemove shm.mappings pos).countP fun m => decide (m.pid = pid) :=
        List.countP_pos_iff.mpr ⟨m, hm, by simpa using hmaps⟩
      simp only [List.countP_cons, hfirst, decide_true, if_true] at hcount
      omega

/-- Nobody but the process holds the object. -/
def heldByNoOther (pid : Nat) (shm : Shm) : Prop := ∀ holder ∈ shm.holders, holder = pid

theorem withoutPid_holders_nil :
    (withoutPid pid shm).holders = [] ↔ heldByNoOther pid shm := by
  simp [withoutPid, heldByNoOther, List.filter_eq_nil_iff]

/-- What the loop of `cleanup_pid` leaves of the objects from its index on, and whose
frames it hands back. -/
theorem cleanupFrom_spec (pid : Nat) (cr3 : BitVec 64) {fuel : Nat} (front back : List Shm)
    (hfuel : back.length ≤ fuel) (vm : Vmm) :
    (∀ shm ∈ (cleanupFrom pid cr3 fuel front.length (front ++ back) vm).1,
      shm ∈ front ∨ ∃ shm₀ ∈ back, shm = withoutPid pid shm₀) ∧
    ∀ addr, addr ∈ (cleanupFrom pid cr3 fuel front.length (front ++ back) vm).2.2.2 ↔
      ∃ shm ∈ back, heldByNoOther pid shm ∧ addr ∈ shm.frames := by
  induction fuel generalizing front back vm with
  | zero =>
    rw [List.length_eq_zero_iff.mp (Nat.le_zero.mp hfuel)]
    simp [cleanupFrom]
  | succ fuel ih =>
    cases back with
    | nil => simp [cleanupFrom]
    | cons shm rest =>
      have hget : (front ++ shm :: rest)[front.length]? = some shm := by simp
      have hset : (front ++ shm :: rest).set front.length (withoutPid pid shm) =
          front ++ withoutPid pid shm :: rest := by simp
      have hholders := congrArg Shm.holders (unmapHolder_eq pid cr3 shm vm)
      have hframes := congrArg Shm.frames (unmapHolder_eq pid cr3 shm vm)
      dsimp only at hholders hframes
      rw [List.length_cons] at hfuel
      simp only [cleanupFrom, hget, unmapHolder_eq, hset]
      rw [hframes]
      split
      · -- the last object moves into the place of this one
        rename_i hnil
        have hlast : heldByNoOther pid shm := withoutPid_holders_nil.mp (hholders.symm.trans hnil)
        have hfirst : (withoutPid pid shm :: rest)[0]? = some (withoutPid pid shm) := rfl
        have hperm := (Lib.perm_swapRemove hfirst).cons_inv
        have hlength : (Lib.swapRemove (withoutPid pid shm :: rest) 0).length ≤ fuel := by
          rw [← hperm.length_eq]
          omega
        obtain ⟨hleft, hgiven⟩ := ih front _ hlength (unmapHolder pid cr3 shm vm).2.1
        simp only [hperm.mem_iff.symm] at hleft hgiven
        rw [Lib.swapRemove_append]
        constructor
        · intro shm' hshm'
          obtain hfront | ⟨shm₀, hshm₀, heq⟩ := hleft shm' hshm'
          · exact .inl hfront
          · exact .inr ⟨shm₀, List.mem_cons_of_mem _ hshm₀, heq⟩
        · intro addr
          rw [List.mem_append, hgiven addr]
          simp [withoutPid, hlast]
      · rename_i hholds
        have hlast : ¬heldByNoOther pid shm := fun h =>
          hholds (hholders.trans (withoutPid_holders_nil.mpr h))
        obtain ⟨hleft, hgiven⟩ := ih (front ++ [withoutPid pid shm]) rest
          (by omega) (unmapHolder pid cr3 shm vm).2.1
        simp only [List.length_append, List.length_singleton, List.append_assoc,
          List.singleton_append, List.mem_append, List.mem_singleton] at hleft hgiven
        constructor
        · intro shm' hshm'
          obtain (hfront | heq) | ⟨shm₀, hshm₀, heq⟩ := hleft shm' hshm'
          · exact .inl hfront
          · exact .inr ⟨shm, List.mem_cons_self, heq⟩
          · exact .inr ⟨shm₀, List.mem_cons_of_mem _ hshm₀, heq⟩
        · intro addr
          rw [hgiven addr]
          simp [hlast]

/-! Table by table. -/

/-- The pages of the memory ranges in a table that belong to a process. -/
def pagesOf (pid : Nat) (records : List α) (owner : α → Nat) (virt : α → BitVec 64)
    (pages : α → Nat) : List (BitVec 64) :=
  (records.filter (owner · = pid)).flatMap fun a => pagesFrom (virt a) (pages a)

theorem mem_pagesOf_extract {records : List α} {owner : α → Nat}
    {virt : α → BitVec 64} {pages : α → Nat} {v : BitVec 64} :
    v ∈ (Lib.extract (owner · = pid) records.length records).1.flatMap
        (fun a => pagesFrom (virt a) (pages a)) ↔ v ∈ pagesOf pid records owner virt pages := by
  simp only [pagesOf, List.mem_flatMap, Lib.mem_extract_fst]

def heapPages (k : Kernel) (pid : Nat) : List (BitVec 64) :=
  pagesOf pid k.heapAllocs (·.pid) (·.virt) (·.size / 4096)

def dmaPages (k : Kernel) (pid : Nat) : List (BitVec 64) :=
  pagesOf pid k.dmaAllocs (·.pid) (·.virt) (divCeil ·.size 4096)

def pciMmioPages (k : Kernel) (pid : Nat) : List (BitVec 64) :=
  pagesOf pid k.pciMmioAllocs (·.pid) (·.virt) (divCeil ·.size 4096)

/-- The addresses of the image frames of a process. -/
def imageAddrs (k : Kernel) (pid : Nat) : List Nat :=
  (k.imageAllocs.filter (·.pid = pid)).flatMap fun a => frameAddrs a.phys a.pages

section Tables

variable {k : Kernel} {pid : Nat} {cr3 : BitVec 64} {roots : List (BitVec 64)}
  {level : BitVec 64 → Nat}

/-- Both device tables are emptied by unmapping the ranges of the process one after the
other. -/
theorem clears_ranges {vm : Vmm} (sep : Separated vm roots level) (hroot : cr3 &&& addrMask ∈ roots)
    {records : List α} {owner : α → Nat} {virt : α → BitVec 64} {size : α → Nat}
    (huser : ∀ v ∈ pagesOf pid records owner virt fun a => divCeil (size a) 4096, UserAddress v) :
    Clears roots cr3 (pagesOf pid records owner virt fun a => divCeil (size a) 4096) vm
      ((Lib.extract (owner · = pid) records.length records).1.foldl
        (fun vm a => unmapRange vm cr3 (virt a) (size a)) vm) := by
  have hclears := clears_foldl sep hroot fun v hv => huser v (mem_pagesOf_extract.mp hv)
  rw [List.foldl_flatMap] at hclears
  simp only [← unmapRange_eq] at hclears
  exact hclears.congr fun v => mem_pagesOf_extract

theorem clears_freeDmaForPid (h : k.userCr3 pid = some cr3) (sep : Separated k.vm roots level)
    (hroot : cr3 &&& addrMask ∈ roots) (huser : ∀ v ∈ k.dmaPages pid, UserAddress v) :
    Clears roots cr3 (k.dmaPages pid) k.vm (k.freeDmaForPid pid).vm := by
  unfold freeDmaForPid
  simp only [h]
  exact clears_ranges sep hroot huser

theorem clears_freePciMmioForPid (h : k.userCr3 pid = some cr3) (sep : Separated k.vm roots level)
    (hroot : cr3 &&& addrMask ∈ roots) (huser : ∀ v ∈ k.pciMmioPages pid, UserAddress v) :
    Clears roots cr3 (k.pciMmioPages pid) k.vm (k.freePciMmioForPid pid).vm := by
  unfold freePciMmioForPid
  simp only [h]
  exact clears_ranges sep hroot huser

theorem frees_freeHeapForPid (h : k.userCr3 pid = some cr3) (sep : Separated k.vm roots level)
    (hroot : cr3 &&& addrMask ∈ roots) (huser : ∀ v ∈ k.heapPages pid, UserAddress v)
    (hpmm : k.pmm.Sized) :
    Frees (fun frame => ∃ v ∈ k.heapPages pid, frameAt k.vm cr3 v = some frame) k.pmm
      (k.freeHeapForPid pid).pmm := by
  have hfrees := frees_freeUserPages sep hroot
    (fun v hv => huser v (mem_pagesOf_extract.mp hv)) hpmm
  rw [List.foldl_flatMap] at hfrees
  simp only [← freeUserPages_eq, mem_pagesOf_extract] at hfrees
  unfold freeHeapForPid
  simp only [h]
  exact hfrees

theorem frees_freeImageForPid (hpmm : k.pmm.Sized) :
    Frees (fun frame => ∃ addr ∈ k.imageAddrs pid, frame = addr / frameSize) k.pmm
      (k.freeImageForPid pid).pmm := by
  have hfrees := frees_foldl hpmm
    ((Lib.extract (fun a : ImageAlloc => decide (a.pid = pid)) k.imageAllocs.length
      k.imageAllocs).1.flatMap fun a => frameAddrs a.phys a.pages)
  rw [List.foldl_flatMap] at hfrees
  simp only [← freeFrames_eq_foldl] at hfrees
  refine hfrees.congr fun frame => ?_
  simp only [imageAddrs, List.mem_flatMap, Lib.mem_extract_fst]

/-- The frames of objects that no other process holds. -/
def shmFrame (k : Kernel) (pid frame : Nat) : Prop :=
  ∃ shm ∈ k.shmObjects, heldByNoOther pid shm ∧ ∃ addr ∈ shm.frames, frame = addr / frameSize

theorem frees_freeAddressSpace (h : k.userCr3 pid = some cr3) (cpu : Nat) (hpmm : k.pmm.Sized) :
    Frees (k.shmFrame pid) k.pmm (k.freeAddressSpace cpu pid).pmm := by
  have hgiven := (cleanupFrom_spec pid cr3 [] _ (Nat.le_refl k.shmObjects.length) k.vm).2
  unfold freeAddressSpace
  simp only [h]
  refine (frees_foldl hpmm _).congr fun frame => ?_
  simp only [shmFrame]
  constructor
  · rintro ⟨addr, haddr, hframe⟩
    obtain ⟨shm, hshm, hlast, hmem⟩ := (hgiven addr).mp haddr
    exact ⟨shm, hshm, hlast, addr, hmem, hframe⟩
  · rintro ⟨shm, hshm, hlast, addr, hmem, hframe⟩
    exact ⟨addr, (hgiven addr).mpr ⟨shm, hshm, hlast, hmem⟩, hframe⟩

theorem freeAddressSpace_shm (h : k.userCr3 pid = some cr3) (cpu : Nat) {shm : Shm}
    (hshm : shm ∈ (k.freeAddressSpace cpu pid).shmObjects) :
    ∃ shm₀ ∈ k.shmObjects, shm = withoutPid pid shm₀ := by
  have hleft := (cleanupFrom_spec pid cr3 [] _ (Nat.le_refl k.shmObjects.length) k.vm).1
  unfold freeAddressSpace at hshm
  simp only [h] at hshm
  exact (hleft shm hshm).resolve_left List.not_mem_nil

theorem freeHeapForPid_eq (k : Kernel) (pid : Nat) :
    ∃ pmm vm, k.freeHeapForPid pid = { k with
      heapAllocs := (Lib.extract (·.pid = pid) k.heapAllocs.length k.heapAllocs).2, pmm, vm } := by
  unfold freeHeapForPid
  dsimp only
  split
  · exact ⟨_, _, rfl⟩
  · exact ⟨_, _, rfl⟩

theorem freeAddressSpace_eq (k : Kernel) (cpu pid : Nat) :
    ∃ tasks vm pmm shmObjects activeCr3,
      k.freeAddressSpace cpu pid = { k with tasks, vm, pmm, shmObjects, activeCr3 } := by
  unfold freeAddressSpace
  split
  · exact ⟨_, _, _, _, _, rfl⟩
  · exact ⟨_, _, _, _, _, rfl⟩

theorem freeImageForPid_shmObjects (k : Kernel) (pid : Nat) :
    (k.freeImageForPid pid).shmObjects = k.shmObjects := rfl

theorem freeImageForPid_vm (k : Kernel) (pid : Nat) : (k.freeImageForPid pid).vm = k.vm := rfl

/-- Everything in the tables of memory that belongs to a process, in the order in which
`exit_current` frees it. -/
def freeMemory (k : Kernel) (cpu pid : Nat) : Kernel :=
  ((((k.freeDmaForPid pid).freePciMmioForPid pid).freeHeapForPid pid).freeAddressSpace cpu
    pid).freeImageForPid pid

/-- What giving back memory changes: the records of the process go. -/
theorem freeMemory_eq (k : Kernel) (cpu pid : Nat) :
    ∃ tasks vm pmm shmObjects freedBuffers activeCr3, k.freeMemory cpu pid = { k with
      heapAllocs := (Lib.extract (·.pid = pid) k.heapAllocs.length k.heapAllocs).2
      dmaAllocs := (Lib.extract (·.pid = pid) k.dmaAllocs.length k.dmaAllocs).2
      pciMmioAllocs := (Lib.extract (·.pid = pid) k.pciMmioAllocs.length k.pciMmioAllocs).2
      imageAllocs := (Lib.extract (·.pid = pid) k.imageAllocs.length k.imageAllocs).2
      tasks, vm, pmm, shmObjects, freedBuffers, activeCr3 } := by
  obtain ⟨pmm, vm, hheap⟩ := freeHeapForPid_eq ((k.freeDmaForPid pid).freePciMmioForPid pid) pid
  obtain ⟨tasks, vm', pmm', shmObjects, activeCr3, haddress⟩ :=
    freeAddressSpace_eq (((k.freeDmaForPid pid).freePciMmioForPid pid).freeHeapForPid pid) cpu pid
  unfold freeMemory
  rw [haddress, hheap]
  exact ⟨_, _, _, _, _, _, rfl⟩

/-- No record of the process is left in the four tables of records. -/
structure Unrecorded (k : Kernel) (pid : Nat) : Prop where
  heap : ∀ a ∈ k.heapAllocs, a.pid ≠ pid
  dma : ∀ a ∈ k.dmaAllocs, a.pid ≠ pid
  pciMmio : ∀ a ∈ k.pciMmioAllocs, a.pid ≠ pid
  image : ∀ a ∈ k.imageAllocs, a.pid ≠ pid

theorem freeMemory_unrecorded (k : Kernel) (cpu pid : Nat) :
    (k.freeMemory cpu pid).Unrecorded pid := by
  have hleft {α : Type} {owner : α → Nat} {l : List α} :
      ∀ a ∈ (Lib.extract (owner · = pid) l.length l).2, owner a ≠ pid := by
    intro a ha
    simpa using Lib.not_mem_extract_snd ha
  obtain ⟨tasks, vm, pmm, shmObjects, freedBuffers, activeCr3, heq⟩ := k.freeMemory_eq cpu pid
  rw [heq]
  constructor
  · exact hleft
  · exact hleft
  · exact hleft
  · exact hleft

def devicePages (k : Kernel) (pid : Nat) : List (BitVec 64) := k.dmaPages pid ++ k.pciMmioPages pid

/-- The frame of a heap page that no device range of the process covers. -/
def heapFrame (k : Kernel) (pid : Nat) (cr3 : BitVec 64) (frame : Nat) : Prop :=
  ∃ v ∈ k.heapPages pid, (∀ w ∈ k.devicePages pid, page w ≠ page v) ∧
    frameAt k.vm cr3 v = some frame

def imageFrame (k : Kernel) (pid frame : Nat) : Prop :=
  ∃ addr ∈ k.imageAddrs pid, frame = addr / frameSize

theorem userCr3_congr {k k' : Kernel} (h : k'.tasks = k.tasks) (pid : Nat) :
    k'.userCr3 pid = k.userCr3 pid := by
  unfold userCr3
  rw [h]

/-- With its main thread in the table, a process gives back the frames of its heap pages
outside the device ranges, of the objects it held alone, and of its image. -/
theorem frees_freeMemory (h : k.userCr3 pid = some cr3) (cpu : Nat)
    (sep : Separated k.vm roots level) (hroot : cr3 &&& addrMask ∈ roots)
    (huser : ∀ v ∈ k.heapPages pid ++ k.devicePages pid, UserAddress v) (hpmm : k.pmm.Sized) :
    Frees (fun frame => k.heapFrame pid cr3 frame ∨ k.shmFrame pid frame ∨ k.imageFrame pid frame)
      k.pmm (k.freeMemory cpu pid).pmm := by
  let d := (k.freeDmaForPid pid).freePciMmioForPid pid
  have hdevice : ∀ v ∈ k.devicePages pid, UserAddress v := fun v hv =>
    huser v (List.mem_append_right _ hv)
  have hdma : ∀ v ∈ k.dmaPages pid, UserAddress v := fun v hv =>
    hdevice v (List.mem_append_left _ hv)
  have hclearsDma := clears_freeDmaForPid h sep hroot hdma
  obtain ⟨level₁, sep₁⟩ := hclearsDma.separated
  have hclears : Clears roots cr3 (k.devicePages pid) k.vm d.vm :=
    hclearsDma.trans (clears_freePciMmioForPid (k := k.freeDmaForPid pid) h sep₁ hroot fun v hv =>
      hdevice v (List.mem_append_right _ hv)) hdma
  obtain ⟨level₂, sep₂⟩ := hclears.separated
  have hheapUser : ∀ v ∈ k.heapPages pid, UserAddress v := fun v hv =>
    huser v (List.mem_append_left _ hv)
  have hheap : Frees (k.heapFrame pid cr3) k.pmm (d.freeHeapForPid pid).pmm := by
    refine (frees_freeHeapForPid (k := d) h sep₂ hroot hheapUser hpmm).congr fun frame => ?_
    constructor
    · rintro ⟨v, hv, hframe⟩
      have hne : ∀ w ∈ k.devicePages pid, page w ≠ page v := by
        intro w hw hpage
        rw [frameAt, hclears.unmapped v ⟨w, hw, hpage⟩] at hframe
        cases hframe
      refine ⟨v, hv, hne, ?_⟩
      rwa [frameAt, hclears.other v (hheapUser v hv) hne] at hframe
    · rintro ⟨v, hv, hne, hframe⟩
      refine ⟨v, hv, ?_⟩
      rwa [frameAt, hclears.other v (hheapUser v hv) hne]
  obtain ⟨pmm, vm, hfreed⟩ := freeHeapForPid_eq d pid
  have hshm := frees_freeAddressSpace
    ((userCr3_congr (freeHeapForPid_tasks d pid) pid).trans h) cpu (hheap.sized hpmm)
  have hobjects : (d.freeHeapForPid pid).shmFrame pid = k.shmFrame pid := by
    rw [hfreed]
    rfl
  rw [hobjects] at hshm
  have himage := @frees_freeImageForPid _ pid (hshm.sized (hheap.sized hpmm))
  have hrecords : ((d.freeHeapForPid pid).freeAddressSpace cpu pid).imageAddrs pid =
      k.imageAddrs pid := by
    obtain ⟨_, _, _, _, _, haddress⟩ := freeAddressSpace_eq (d.freeHeapForPid pid) cpu pid
    rw [haddress, hfreed]
    rfl
  rw [hrecords] at himage
  exact (hheap.trans (hshm.trans himage)).congr fun frame => Iff.rfl

/-- Once the main thread has left the table, only the image frames come back. -/
theorem frees_freeMemory_none (h : k.userCr3 pid = none) (cpu : Nat) (hpmm : k.pmm.Sized) :
    Frees (k.imageFrame pid) k.pmm (k.freeMemory cpu pid).pmm ∧
      (k.freeMemory cpu pid).shmObjects = k.shmObjects := by
  let d := (k.freeDmaForPid pid).freePciMmioForPid pid
  have hheap : d.freeHeapForPid pid = { d with
      heapAllocs := (Lib.extract (·.pid = pid) d.heapAllocs.length d.heapAllocs).2 } := by
    have hd : d.userCr3 pid = none := h
    unfold freeHeapForPid
    simp only [hd]
  have haddress : (d.freeHeapForPid pid).freeAddressSpace cpu pid = d.freeHeapForPid pid := by
    have hd : (d.freeHeapForPid pid).userCr3 pid = none :=
      (userCr3_congr (freeHeapForPid_tasks d pid) pid).trans h
    unfold freeAddressSpace
    simp only [hd]
  have hfreed : k.freeMemory cpu pid = (d.freeHeapForPid pid).freeImageForPid pid :=
    congrArg (freeImageForPid · pid) haddress
  rw [hfreed, hheap]
  exact ⟨frees_freeImageForPid hpmm, rfl⟩

theorem freeMemory_shm (h : k.userCr3 pid = some cr3) (cpu : Nat) {shm : Shm}
    (hshm : shm ∈ (k.freeMemory cpu pid).shmObjects) :
    ∃ shm₀ ∈ k.shmObjects, shm = withoutPid pid shm₀ := by
  let d := (k.freeDmaForPid pid).freePciMmioForPid pid
  rw [freeMemory, freeImageForPid_shmObjects] at hshm
  obtain ⟨shm₀, hshm₀, heq⟩ := freeAddressSpace_shm
    ((userCr3_congr (freeHeapForPid_tasks d pid) pid).trans h) cpu hshm
  obtain ⟨pmm, vm, hfreed⟩ := freeHeapForPid_eq d pid
  rw [hfreed] at hshm₀
  exact ⟨shm₀, hshm₀, heq⟩

end Tables

/-! The whole of it. -/

/-- A frame behind the memory of a process: its heap pages, its image, and the objects it
is the last holder of. -/
def Covers (k : Kernel) (pid : Nat) (cr3 : BitVec 64) (frame : Nat) : Prop :=
  (∃ v ∈ k.heapPages pid, frameAt k.vm cr3 v = some frame) ∨ k.imageFrame pid frame ∨
    ∃ shm ∈ k.shmObjects, pid ∈ shm.holders ∧ heldByNoOther pid shm ∧
      ∃ addr ∈ shm.frames, frame = addr / frameSize

/-- Between `k` and `k'` a process has given back all it had. -/
structure Reclaimed (k k' : Kernel) (pid : Nat) (cr3 : BitVec 64) : Prop where
  records : k'.Unrecorded pid
  shm : ∀ shm ∈ k'.shmObjects, ¬Shm.Names shm pid
  frames : ∀ frame, k.Covers pid cr3 frame → getBit k'.pmm.bitmap frame = false

/-- The main thread is still in the table if there is a heap page or an object to look
its address space up for, and no device range covers a heap page. -/
structure Reclaimable (k : Kernel) (pid : Nat) (cr3 : BitVec 64) : Prop where
  heap : ∀ v ∈ k.heapPages pid, (frameAt k.vm cr3 v).isSome →
    (k.userCr3 pid).isSome ∧ ∀ w ∈ k.devicePages pid, page w ≠ page v
  shm : ∀ shm ∈ k.shmObjects, Shm.Names shm pid → (k.userCr3 pid).isSome

/-- What the kernel keeps about the memory of a process with address space `cr3`: its
heap pages are user pages with a used frame of their own. -/
structure Held (k : Kernel) (pid : Nat) (cr3 : BitVec 64) : Prop where
  sized : k.pmm.Sized
  separated : ∃ roots level, Separated k.vm roots level ∧ cr3 &&& addrMask ∈ roots
  space : ∀ c, k.userCr3 pid = some c → c = cr3
  user : ∀ v ∈ k.heapPages pid ++ k.devicePages pid, UserAddress v
  mapped : ∀ shm ∈ k.shmObjects, shm.mappings.countP (·.pid = pid) ≤ 1
  used : ∀ v ∈ k.heapPages pid, ∀ frame, frameAt k.vm cr3 v = some frame →
    getBit k.pmm.bitmap frame = true ∧ ¬k.imageFrame pid frame ∧ ¬k.shmFrame pid frame
  own : ∀ v ∈ k.heapPages pid, ∀ w ∈ k.heapPages pid, ∀ frame,
    frameAt k.vm cr3 v = some frame → frameAt k.vm cr3 w = some frame → page v = page w

section Whole

variable {k : Kernel} {pid : Nat} {cr3 : BitVec 64}

theorem freeMemory_reclaims (held : k.Held pid cr3) (cpu : Nat) (h : k.Reclaimable pid cr3) :
    Reclaimed k (k.freeMemory cpu pid) pid cr3 := by
  refine ⟨freeMemory_unrecorded k cpu pid, ?_, ?_⟩
  · intro shm hshm
    cases hspace : k.userCr3 pid with
    | none =>
      rw [(frees_freeMemory_none hspace cpu held.sized).2] at hshm
      intro hnames
      simpa [hspace] using h.shm shm hshm hnames
    | some c =>
      obtain ⟨shm₀, hshm₀, rfl⟩ := freeMemory_shm hspace cpu hshm
      exact withoutPid_not_names (held.mapped shm₀ hshm₀)
  · intro frame hcovers
    rw [Bool.eq_false_iff]
    cases hspace : k.userCr3 pid with
    | none =>
      rw [ne_eq, (frees_freeMemory_none hspace cpu held.sized).1.used]
      obtain ⟨v, hv, hframe⟩ | himage | ⟨shm, hshm, hholds, -⟩ := hcovers
      · simpa [hspace] using (h.heap v hv (by simp [hframe])).1
      · exact fun hused => hused.2 himage
      · simpa [hspace] using h.shm shm hshm (.inl hholds)
    | some c =>
      obtain rfl := held.space c hspace
      obtain ⟨roots, level, sep, hroot⟩ := held.separated
      rw [ne_eq, (frees_freeMemory hspace cpu sep hroot held.user held.sized).used]
      rintro ⟨-, hkept⟩
      apply hkept
      obtain ⟨v, hv, hframe⟩ | himage | ⟨shm, hshm, -, hlast, haddr⟩ := hcovers
      · exact .inl ⟨v, hv, (h.heap v hv (by simp [hframe])).2, hframe⟩
      · exact .inr (.inr himage)
      · exact .inr (.inl ⟨shm, hshm, hlast, haddr⟩)

theorem reclaimable_of_freeMemory (held : k.Held pid cr3) (cpu : Nat)
    (h : Reclaimed k (k.freeMemory cpu pid) pid cr3) : k.Reclaimable pid cr3 := by
  constructor
  · intro v hv hmapped
    obtain ⟨frame, hframe⟩ := Option.isSome_iff_exists.mp hmapped
    obtain ⟨hused, himage, hshm⟩ := held.used v hv frame hframe
    have hfree := Bool.eq_false_iff.mp (h.frames frame (.inl ⟨v, hv, hframe⟩))
    cases hspace : k.userCr3 pid with
    | none =>
      rw [ne_eq, (frees_freeMemory_none hspace cpu held.sized).1.used] at hfree
      exact absurd ⟨hused, himage⟩ hfree
    | some c =>
      obtain rfl := held.space c hspace
      obtain ⟨roots, level, sep, hroot⟩ := held.separated
      rw [ne_eq, (frees_freeMemory hspace cpu sep hroot held.user held.sized).used] at hfree
      -- some heap page outside the device ranges gave the frame back: it is this one
      obtain ⟨v', hv', hne, hframe'⟩ : k.heapFrame pid c frame := by
        by_contra hheap
        exact hfree ⟨hused, by simp [hheap, hshm, himage]⟩
      rw [held.own v' hv' v hv frame hframe' hframe] at hne
      exact ⟨rfl, hne⟩
  · intro shm hshm hnames
    cases hspace : k.userCr3 pid with
    | none =>
      refine absurd hnames (h.shm shm ?_)
      rw [(frees_freeMemory_none hspace cpu held.sized).2]
      exact hshm
    | some c => rfl

/-- Up to the memory tables, what teardown does to the kernel before it frees memory. -/
def disowned (k : Kernel) (cpu : Nat) : Kernel :=
  (k.onTasks (·.killChildren (k.tasks.currentPid cpu))).detach cpu (k.tasks.currentPid cpu)

theorem disowned_userCr3 (k : Kernel) (cpu pid : Nat) :
    (k.disowned cpu).userCr3 pid = k.userCr3 pid := by
  have hchildren := (keeps_killChildren k.tasks (k.tasks.currentPid cpu)).userCr3 pid
  have hdetach := (keeps_detach (k.onTasks (·.killChildren (k.tasks.currentPid cpu))) cpu
    (k.tasks.currentPid cpu)).userCr3 pid
  unfold userCr3 disowned
  rw [hdetach]
  exact congrArg _ hchildren

theorem disowned_eq (k : Kernel) (cpu : Nat) :
    ∃ tasks pipes tables channels audioOnline keyboard fbOwner driverIrq, k.disowned cpu =
      { k with tasks, pipes, tables, channels, audioOnline, keyboard, fbOwner, driverIrq } :=
  detach_eq (k.onTasks (·.killChildren (k.tasks.currentPid cpu))) cpu (k.tasks.currentPid cpu)

theorem teardown_eq (k : Kernel) {cpu : Nat} (hpid : k.tasks.currentPid cpu ≠ 0) :
    ∃ tasks, k.teardown cpu =
      { (k.disowned cpu).freeMemory cpu (k.tasks.currentPid cpu) with tasks } := by
  have hfreed : (k.onTasks (·.killChildren (k.tasks.currentPid cpu))).freeResources cpu
      (k.tasks.currentPid cpu) = (k.disowned cpu).freeMemory cpu (k.tasks.currentPid cpu) := rfl
  unfold teardown
  simp only [hpid, if_false, hfreed]
  generalize (k.disowned cpu).freeMemory cpu (k.tasks.currentPid cpu) = freed
  split
  · exact ⟨_, rfl⟩
  · exact ⟨_, rfl⟩

theorem reclaimed_tasks_iff {k' : Kernel} {tasks : Tasks} :
    Reclaimed k { k' with tasks } pid cr3 ↔ Reclaimed k k' pid cr3 := by
  constructor
  · rintro ⟨⟨heap, dma, pciMmio, image⟩, shm, frames⟩
    exact ⟨⟨heap, dma, pciMmio, image⟩, shm, frames⟩
  · rintro ⟨⟨heap, dma, pciMmio, image⟩, shm, frames⟩
    exact ⟨⟨heap, dma, pciMmio, image⟩, shm, frames⟩

end Whole

/-- Teardown takes back all memory of the process exactly when it can: the main thread is
still in the table for what is looked up through it, and no heap page lies in a device
range. -/
theorem teardown_reclaims_iff {k : Kernel} {cpu : Nat} (hpid : k.tasks.currentPid cpu ≠ 0)
    {cr3 : BitVec 64} (held : k.Held (k.tasks.currentPid cpu) cr3) :
    Reclaimed k (k.teardown cpu) (k.tasks.currentPid cpu) cr3 ↔
      k.Reclaimable (k.tasks.currentPid cpu) cr3 := by
  obtain ⟨tasks, hteardown⟩ := teardown_eq k hpid
  have hspace := disowned_userCr3 k cpu (k.tasks.currentPid cpu)
  obtain ⟨tasks', pipes, tables, channels, audioOnline, keyboard, fbOwner, driverIrq, hdisowned⟩ :=
    disowned_eq k cpu
  rw [hteardown]
  rw [hdisowned] at hspace ⊢
  generalize k.tasks.currentPid cpu = pid at *
  let d := { k with
    tasks := tasks', pipes, tables, channels, audioOnline, keyboard, fbOwner, driverIrq }
  have hheld : d.Held pid cr3 :=
    ⟨held.sized, held.separated, hspace ▸ held.space, held.user, held.mapped, held.used, held.own⟩
  have hable : d.Reclaimable pid cr3 ↔ k.Reclaimable pid cr3 := by
    constructor
    · exact fun h => ⟨hspace ▸ h.heap, hspace ▸ h.shm⟩
    · exact fun h => ⟨hspace ▸ h.heap, hspace ▸ h.shm⟩
  have hiff : Reclaimed d (d.freeMemory cpu pid) pid cr3 ↔ d.Reclaimable pid cr3 :=
    ⟨reclaimable_of_freeMemory hheld cpu, freeMemory_reclaims hheld cpu⟩
  rw [← hable, ← hiff, reclaimed_tasks_iff]
  generalize d.freeMemory cpu pid = freed
  exact ⟨fun h => ⟨h.records, h.shm, h.frames⟩, fun h => ⟨h.records, h.shm, h.frames⟩⟩

/-- Two threads with a heap page in frame 7 and a shared object in frame 6. -/
def ownsMemory : Kernel :=
  { twoThreads with
    tasks := { twoThreads.tasks with
      threads := twoThreads.tasks.threads.map fun t =>
        { t with userContext := { t.userContext with cr3 := 0x2000 } } }
    vm := (smallSpaces.vm.mapPage 0x2000 0x8000000000 0x7000 .userReadWrite).2
    pmm := ⟨[192], 8, 2, 0⟩
    heapAllocs := [⟨1, 0x8000000000, 4096⟩]
    shmObjects := [⟨1, 1, [0x6000], [1], []⟩] }

theorem ownsMemory_held : ownsMemory.Held 1 0x2000 := by
  have hpages : ownsMemory.heapPages 1 = [0x8000000000] := rfl
  have hframe : frameAt ownsMemory.vm 0x2000 0x8000000000 = some 7 := by decide
  have hroot : (0x2000 : BitVec 64) &&& addrMask ∈ smallSpaces.roots := by decide
  obtain ⟨level, sep⟩ := smallSpaces_separated
  refine ⟨rfl, ?_, ?_, ?_, ?_, ?_, ?_⟩
  · have huser : UserAddress 0x8000000000 := by decide
    have hmaps := mapPage_maps sep hroot huser 0x7000 .userReadWrite
    obtain ⟨level', sep'⟩ := hmaps.separated
    exact ⟨_, level', sep', hroot⟩
  · intro c hc
    exact (Option.some.inj hc).symm
  · have hdevice : ownsMemory.devicePages 1 = [] := rfl
    rw [hpages, hdevice]
    intro v hv
    rw [List.mem_singleton.mp hv]
    decide
  · decide
  · rw [hpages]
    intro v hv frame hv'
    rw [List.mem_singleton.mp hv, hframe] at hv'
    cases hv'
    refine ⟨by decide, ?_, ?_⟩
    · rintro ⟨addr, haddr, -⟩
      cases haddr
    · rintro ⟨shm, hshm, -, addr, haddr, heq⟩
      cases List.mem_singleton.mp hshm
      cases List.mem_singleton.mp haddr
      cases heq
  · rw [hpages]
    intro v hv w hw frame _ _
    rw [List.mem_singleton.mp hv, List.mem_singleton.mp hw]

/-- With both threads still in the table, CPU 0 gives everything back. -/
theorem teardown_reclaims_iff_ownsMemory :
    Reclaimed ownsMemory (ownsMemory.teardown 0) 1 0x2000 :=
  have hpid : ownsMemory.tasks.currentPid 0 ≠ 0 := by decide
  (teardown_reclaims_iff hpid ownsMemory_held).mpr
    ⟨fun _ _ _ => ⟨rfl, fun _ hw => nomatch hw⟩, fun _ _ _ => rfl⟩

/-- The main thread leaves first, the worker tears the process down: the process is gone,
its heap page and its object are not. -/
theorem main_thread_first_leaks :
    ownsMemory.Held 1 0x2000 ∧ ownsMemory.Covers 1 0x2000 7 ∧ ownsMemory.Covers 1 0x2000 6 ∧
      let k := (ownsMemory.exitCurrent 0).exitCurrent 1
      k.tasks.processes.map (·.pid) = [0] ∧ k.heapAllocs = [] ∧
        getBit k.pmm.bitmap 7 = true ∧ getBit k.pmm.bitmap 6 = true ∧
        k.shmObjects.map (·.holders) = [[1]] :=
  ⟨ownsMemory_held, .inl ⟨0x8000000000, List.mem_singleton_self _, by decide⟩,
    .inr (.inr ⟨_, List.mem_singleton_self _, List.mem_singleton_self _,
      fun _ h => List.mem_singleton.mp h, 0x6000, List.mem_singleton_self _, rfl⟩),
    by decide, by decide, by decide, by decide, by decide⟩

end KazuOS.Kernel
