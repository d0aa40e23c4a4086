import KazuOS.Kernel.Reclaim
import KazuOS.Memory.Pages

/-! A process that ends takes pages away and maps none: whatever an address space shows
afterwards it showed before. -/
namespace KazuOS.Memory.AddressSpaces

open Lib Vmm

/-- Every user page that is mapped afterwards was mapped, to the same frame. -/
structure Shrinks (roots : List (BitVec 64)) (vm vm' : Vmm) : Prop where
  separated : ∃ level, Separated vm' roots level
  before : ∀ root ∈ roots, ∀ virt, UserAddress virt → ∀ phys,
    vm'.translate root virt = some phys → vm.translate root virt = some phys

namespace Shrinks

variable {roots : List (BitVec 64)} {vm vm' vm'' : Vmm} {level : BitVec 64 → Nat}

theorem refl (sep : Separated vm roots level) : Shrinks roots vm vm :=
  ⟨⟨level, sep⟩, fun _ _ _ _ _ h => h⟩

theorem trans (h : Shrinks roots vm vm') (h' : Shrinks roots vm' vm'') : Shrinks roots vm vm'' :=
  ⟨h'.separated, fun root hroot virt huser phys hphys =>
    h.before root hroot virt huser phys (h'.before root hroot virt huser phys hphys)⟩

theorem unmapPage (sep : Separated vm roots level) {cr3 virt : BitVec 64}
    (hroot : cr3 &&& addrMask ∈ roots) (huser : UserAddress virt) :
    Shrinks roots vm (vm.unmapPage cr3 virt) := by
  have hunmaps := unmapPage_unmaps sep hroot huser
  refine ⟨hunmaps.separated, ?_⟩
  intro root hmem virt' huser' phys hphys
  have hmask := sep.root_mask hmem
  by_cases hhere : root = cr3 &&& addrMask ∧ page virt' = page virt
  · rw [hhere.1, translate_mask, translate_of_page_eq hhere.2, hunmaps.unmapped] at hphys
    cases hphys
  · rw [← hunmaps.other root virt' (by rwa [hmask]) huser' (by rw [hmask]; tauto)]
    exact hphys

/-- A loop that unmaps user pages of one address space. -/
theorem foldl {σ ι : Type*} (tables : σ → Vmm) {f : σ → ι → σ} {P : ι → Prop}
    (hstep : ∀ s i, P i → ∀ level, Separated (tables s) roots level →
      Shrinks roots (tables s) (tables (f s i)))
    {l : List ι} (hl : ∀ i ∈ l, P i) {s : σ} (sep : Separated (tables s) roots level) :
    Shrinks roots (tables s) (tables (l.foldl f s)) := by
  induction l generalizing s level with
  | nil => exact refl sep
  | cons i rest ih =>
    have hfirst := hstep s i (hl i List.mem_cons_self) level sep
    obtain ⟨level', sep'⟩ := hfirst.separated
    exact hfirst.trans (ih (fun j hj => hl j (List.mem_cons_of_mem i hj)) sep')

theorem unmapPages (sep : Separated vm roots level) {cr3 : BitVec 64}
    (hroot : cr3 &&& addrMask ∈ roots) {pages : List (BitVec 64)}
    (huser : ∀ v ∈ pages, UserAddress v) :
    Shrinks roots vm (pages.foldl (fun vm v => vm.unmapPage cr3 v) vm) := by
  have hstep : ∀ (vm : Vmm) v, UserAddress v → ∀ level, Separated vm roots level →
      Shrinks roots vm (vm.unmapPage cr3 v) := fun _ _ hv _ sep => unmapPage sep hroot hv
  exact foldl (fun vm : Vmm => vm) (f := fun vm v => vm.unmapPage cr3 v) hstep huser sep

/-- With fewer links every walk that still ends is one that did. -/
theorem slot_of_child {child child' : BitVec 64 → Fin 512 → Option (BitVec 64)}
    (h : ∀ t i u, child' t i = some u → child t i = some u) {root virt : BitVec 64}
    {leaf : BitVec 64 × Fin 512} (hslot : slot child' root (path virt) = some leaf) :
    slot child root (path virt) = some leaf := by
  simp only [path, slot, Option.bind_eq_some_iff, Option.some.injEq] at hslot ⊢
  obtain ⟨pdpt, hpdpt, pd, hpd, pt, hpt, rfl⟩ := hslot
  exact ⟨pdpt, h _ _ _ hpdpt, pd, h _ _ _ hpd, pt, h _ _ _ hpt, rfl⟩

theorem freeUserAddressSpace (sep : Separated vm roots level) (cr3 : BitVec 64) :
    Shrinks roots vm (vm.freeUserAddressSpace cr3) := by
  have hsep := freeUserAddressSpace_separated sep cr3
  have hchild : ∀ t i u, (vm.freeUserAddressSpace cr3).child t i = some u →
      vm.child t i = some u := by
    intro t i u hu
    unfold Vmm.freeUserAddressSpace at hu
    dsimp only at hu
    split at hu
    · exact hu
    · unfold Vmm.child at hu ⊢
      by_cases hcleared : t = cr3 &&& addrMask ∧ 1 ≤ i.val ∧ i.val < 256
      · simp only [if_pos hcleared] at hu
        simp at hu
      · simp only [if_neg hcleared] at hu
        exact hu
  refine ⟨⟨level, hsep⟩, ?_⟩
  intro root hroot virt huser phys hphys
  have hmask := sep.root_mask hroot
  rw [hsep.translate_eq (by rwa [hmask]) huser] at hphys
  obtain ⟨leaf, hslot, hleaf⟩ := Option.bind_eq_some_iff.mp hphys
  rw [sep.translate_eq (by rwa [hmask]) huser, slot_of_child hchild hslot]
  exact hchild _ _ _ hleaf

end Shrinks

end KazuOS.Memory.AddressSpaces

namespace KazuOS.Kernel

open KazuOS.Memory KazuOS.Memory.AddressSpaces KazuOS.Task KazuOS.Task.Tasks

/-- The pages at which a process has mapped an object. -/
def Shm.pagesOf (shm : Shm) (pid : Nat) : List (BitVec 64) :=
  (shm.mappings.filter (·.pid = pid)).flatMap fun m =>
    pagesFrom m.virt (divCeil (shm.frames.length * 4096) 4096)

/-- All that the kernel has recorded for a process lies in the user half. -/
structure RecordedInUserHalf (k : Kernel) (pid : Nat) : Prop where
  device : ∀ v ∈ k.devicePages pid, UserAddress v
  heap : ∀ v ∈ k.heapPages pid, UserAddress v
  shm : ∀ shm ∈ k.shmObjects, ∀ v ∈ Shm.pagesOf shm pid, UserAddress v

section Exit

variable {k : Kernel} {pid : Nat} {cr3 : BitVec 64} {roots : List (BitVec 64)}
  {level : BitVec 64 → Nat} {vm : Vmm}

theorem shrinks_ranges (sep : Separated vm roots level) (hroot : cr3 &&& addrMask ∈ roots)
    {records : List α} {owner : α → Nat} {virt : α → BitVec 64} {size : α → Nat}
    (huser : ∀ v ∈ pagesOf pid records owner virt fun a => divCeil (size a) 4096, UserAddress v) :
    Shrinks roots vm ((Lib.extract (owner · = pid) records.length records).1.foldl
      (fun vm a => unmapRange vm cr3 (virt a) (size a)) vm) := by
  have hshrinks := Shrinks.unmapPages sep hroot fun v hv => huser v (mem_pagesOf_extract.mp hv)
  rw [List.foldl_flatMap] at hshrinks
  simp only [← unmapRange_eq] at hshrinks
  exact hshrinks

theorem shrinks_freeDmaForPid (sep : Separated k.vm roots level)
    (hroot : ∀ cr3, k.userCr3 pid = some cr3 → cr3 &&& addrMask ∈ roots)
    (huser : ∀ v ∈ k.dmaPages pid, UserAddress v) :
    Shrinks roots k.vm (k.freeDmaForPid pid).vm := by
  unfold freeDmaForPid
  cases hspace : k.userCr3 pid with
  | none => exact Shrinks.refl sep
  | some cr3 => exact shrinks_ranges sep (hroot cr3 hspace) huser

theorem shrinks_freePciMmioForPid (sep : Separated k.vm roots level)
    (hroot : ∀ cr3, k.userCr3 pid = some cr3 → cr3 &&& addrMask ∈ roots)
    (huser : ∀ v ∈ k.pciMmioPages pid, UserAddress v) :
    Shrinks roots k.vm (k.freePciMmioForPid pid).vm := by
  unfold freePciMmioForPid
  cases hspace : k.userCr3 pid with
  | none => exact Shrinks.refl sep
  | some cr3 => exact shrinks_ranges sep (hroot cr3 hspace) huser

theorem shrinks_freeHeapForPid (sep : Separated k.vm roots level)
    (hroot : ∀ cr3, k.userCr3 pid = some cr3 → cr3 &&& addrMask ∈ roots)
    (huser : ∀ v ∈ k.heapPages pid, UserAddress v) :
    Shrinks roots k.vm (k.freeHeapForPid pid).vm := by
  unfold freeHeapForPid
  cases hspace : k.userCr3 pid with
  | none => exact Shrinks.refl sep
  | some cr3 =>
    have hshrinks := Shrinks.foldl (fun state : Pmm × Vmm => state.2) (f := freeUserPage cr3)
      (s := (k.pmm, k.vm)) (fun _ _ hv _ sep => Shrinks.unmapPage sep (hroot cr3 hspace) hv)
      (fun v hv => huser v (mem_pagesOf_extract.mp hv)) sep
    rw [List.foldl_flatMap] at hshrinks
    simp only [← freeUserPages_eq] at hshrinks
    exact hshrinks

/-- Unmapping an object drops one mapping of the process, and its pages one by one. -/
theorem unmapHolder_vm (pid : Nat) (cr3 : BitVec 64) (shm : Shm) (vm : Vmm) :
    ∃ virts : List (BitVec 64), (∀ v ∈ virts, v ∈ Shm.pagesOf shm pid) ∧
      (unmapHolder pid cr3 shm vm).2.1 = virts.foldl (fun vm v => vm.unmapPage cr3 v) vm ∧
      (unmapHolder pid cr3 shm vm).1.frames = shm.frames ∧
      (unmapHolder pid cr3 shm vm).1.mappings ⊆ shm.mappings := by
  unfold unmapHolder
  obtain ⟨hidx, hfind, -⟩ | ⟨pos, m, hidx, hfind, hget⟩ :=
    Lib.findIdx?_find?_cases (fun m : Mapping => decide (m.pid = pid)) shm.mappings
  · simp only [hidx, hfind]
    exact ⟨[], by simp, rfl, trivial, List.Subset.refl _⟩
  · simp only [hidx, hfind]
    refine ⟨_, ?_, unmapRange_eq vm cr3 m.virt _, trivial, ?_⟩
    · intro v hv
      have hpid := List.find?_some hfind
      have hmem : m ∈ shm.mappings.filter (·.pid = pid) :=
        List.mem_filter.mpr ⟨List.mem_of_find?_eq_some hfind, hpid⟩
      exact List.mem_flatMap.mpr ⟨m, hmem, hv⟩
    · intro m' hm'
      exact (Lib.perm_swapRemove hget).symm.subset (List.mem_cons_of_mem _ hm')

theorem pagesOf_mono {shm shm' : Shm} (hframes : shm'.frames = shm.frames)
    (hmappings : shm'.mappings ⊆ shm.mappings) :
    ∀ v ∈ Shm.pagesOf shm' pid, v ∈ Shm.pagesOf shm pid := by
  intro v hv
  obtain ⟨m, hm, hv⟩ := List.mem_flatMap.mp hv
  obtain ⟨hm, hpid⟩ := List.mem_filter.mp hm
  rw [hframes] at hv
  exact List.mem_flatMap.mpr ⟨m, List.mem_filter.mpr ⟨hmappings hm, hpid⟩, hv⟩

/-- The loop of `cleanup_pid` unmaps pages that the process has mapped objects at. -/
theorem cleanupFrom_vm (pid : Nat) (cr3 : BitVec 64) {P : BitVec 64 → Prop} (fuel i : Nat)
    {objects : List Shm} (hpages : ∀ shm ∈ objects, ∀ v ∈ Shm.pagesOf shm pid, P v) (vm : Vmm) :
    ∃ virts : List (BitVec 64), (∀ v ∈ virts, P v) ∧
      (cleanupFrom pid cr3 fuel i objects vm).2.1 =
        virts.foldl (fun vm v => vm.unmapPage cr3 v) vm := by
  induction fuel generalizing i objects vm with
  | zero => exact ⟨[], by simp, rfl⟩
  | succ fuel ih =>
    rw [cleanupFrom]
    cases hi : objects[i]? with
    | none => exact ⟨[], by simp, rfl⟩
    | some shm =>
      have hmem := List.mem_of_getElem? hi
      obtain ⟨virts, hvirts, hvm, hframes, hmappings⟩ := unmapHolder_vm pid cr3 shm vm
      have hset : ∀ holders, ∀ shm' ∈ objects.set i
          { (unmapHolder pid cr3 shm vm).1 with holders }, ∀ v ∈ Shm.pagesOf shm' pid, P v := by
        intro holders shm' hshm' v hv
        obtain hold | rfl := List.mem_or_eq_of_mem_set hshm'
        · exact hpages shm' hold v hv
        · exact hpages shm hmem v (pagesOf_mono hframes hmappings v hv)
      -- the pages of this object come before those of the later ones
      have hjoin : ∀ {vm' : Vmm}, (∃ later : List (BitVec 64), (∀ v ∈ later, P v) ∧ vm' =
          later.foldl (fun vm v => vm.unmapPage cr3 v) (unmapHolder pid cr3 shm vm).2.1) →
          ∃ virts : List (BitVec 64), (∀ v ∈ virts, P v) ∧
            vm' = virts.foldl (fun vm v => vm.unmapPage cr3 v) vm := by
        rintro vm' ⟨later, hlater, rfl⟩
        refine ⟨virts ++ later, ?_, ?_⟩
        · intro v hv
          obtain hv | hv := List.mem_append.mp hv
          · exact hpages shm hmem v (hvirts v hv)
          · exact hlater v hv
        · rw [hvm, List.foldl_append]
      dsimp only
      split
      · refine hjoin (ih i ?_ _)
        intro shm' hshm'
        apply hset _ shm'
        have hlt := (List.getElem?_eq_some_iff.mp hi).1
        exact (Lib.perm_swapRemove (List.getElem?_set_self hlt)).symm.subset
          (List.mem_cons_of_mem _ hshm')
      · exact hjoin (ih (i + 1) (hset _) _)

theorem shrinks_freeAddressSpace (sep : Separated k.vm roots level)
    (hroot : ∀ cr3, k.userCr3 pid = some cr3 → cr3 &&& addrMask ∈ roots)
    (huser : ∀ shm ∈ k.shmObjects, ∀ v ∈ Shm.pagesOf shm pid, UserAddress v) (cpu : Nat) :
    Shrinks roots k.vm (k.freeAddressSpace cpu pid).vm := by
  unfold freeAddressSpace
  cases hspace : k.userCr3 pid with
  | none => exact Shrinks.refl sep
  | some cr3 =>
    obtain ⟨virts, hvirts, hvm⟩ := cleanupFrom_vm pid cr3 k.shmObjects.length 0 huser k.vm
    have hcleanup := Shrinks.unmapPages sep (hroot cr3 hspace) hvirts
    rw [← hvm] at hcleanup
    obtain ⟨level', sep'⟩ := hcleanup.separated
    exact hcleanup.trans (Shrinks.freeUserAddressSpace sep' cr3)

theorem shrinks_freeMemory (sep : Separated k.vm roots level)
    (hroot : ∀ cr3, k.userCr3 pid = some cr3 → cr3 &&& addrMask ∈ roots)
    (huser : RecordedInUserHalf k pid) (cpu : Nat) :
    Shrinks roots k.vm (k.freeMemory cpu pid).vm := by
  have hdma := shrinks_freeDmaForPid sep hroot fun v hv =>
    huser.device v (List.mem_append_left _ hv)
  obtain ⟨level₁, sep₁⟩ := hdma.separated
  have hpci := shrinks_freePciMmioForPid (k := k.freeDmaForPid pid) sep₁ hroot fun v hv =>
    huser.device v (List.mem_append_right _ hv)
  obtain ⟨level₂, sep₂⟩ := hpci.separated
  have hheap := shrinks_freeHeapForPid (k := (k.freeDmaForPid pid).freePciMmioForPid pid) sep₂
    hroot huser.heap
  obtain ⟨level₃, sep₃⟩ := hheap.separated
  obtain ⟨pmm, vm, hheap_eq⟩ :=
    freeHeapForPid_eq ((k.freeDmaForPid pid).freePciMmioForPid pid) pid
  have hspace : Shrinks roots (((k.freeDmaForPid pid).freePciMmioForPid pid).freeHeapForPid pid).vm
      ((((k.freeDmaForPid pid).freePciMmioForPid pid).freeHeapForPid pid).freeAddressSpace
        cpu pid).vm := shrinks_freeAddressSpace sep₃
    (by rw [hheap_eq]; exact hroot) (by rw [hheap_eq]; exact huser.shm) cpu
  rw [freeMemory, freeImageForPid_vm]
  exact ((hdma.trans hpci).trans hheap).trans hspace

theorem shrinks_teardown {cpu : Nat} (sep : Separated k.vm roots level)
    (hroot : ∀ cr3, k.userCr3 (k.tasks.currentPid cpu) = some cr3 → cr3 &&& addrMask ∈ roots)
    (huser : RecordedInUserHalf k (k.tasks.currentPid cpu)) :
    Shrinks roots k.vm (k.teardown cpu).vm := by
  by_cases hpid : k.tasks.currentPid cpu = 0
  · unfold teardown
    simp only [hpid, if_true]
    split <;> exact Shrinks.refl sep
  · obtain ⟨tasks, hteardown⟩ := teardown_eq k hpid
    have hfreed : Shrinks roots k.vm
        ((k.disowned cpu).freeMemory cpu (k.tasks.currentPid cpu)).vm := by
      have hspace := disowned_userCr3 k cpu (k.tasks.currentPid cpu)
      obtain ⟨tasks', pipes, tables, channels, audioOnline, keyboard, fbOwner, driverIrq,
        hdisowned⟩ := disowned_eq k cpu
      rw [hdisowned] at hspace ⊢
      exact shrinks_freeMemory (k := { k with
        tasks := tasks', pipes, tables, channels, audioOnline, keyboard, fbOwner, driverIrq }) sep
        (hspace ▸ hroot) ⟨huser.device, huser.heap, huser.shm⟩ cpu
    rw [hteardown]
    -- without the projection reduced, the unifier unfolds all of `freeMemory`
    dsimp only
    exact hfreed

end Exit

end KazuOS.Kernel
