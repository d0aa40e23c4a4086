import KazuOS.Kernel.ExitWait
import KazuOS.Kernel.Privileged
import KazuOS.Kernel.Locks
import KazuOS.Kernel.Shrinking

/-! The framebuffer and its owner. Owning it means to have its pages mapped; giving it back
changes the record only, so the mapping outlives the ownership. -/
namespace KazuOS.Memory

open KazuOS.Memory.AddressSpaces

/-! When mapping a range cannot fail half way. -/

/-- How many page tables the heap will hand out before it first has none. -/
def Vmm.supply (vm : Vmm) : Nat := (vm.heap.takeWhile Option.isSome).length

section Supply

variable {vm : Vmm} {n : Nat}

theorem nextTable_supplied (h : n + 1 ≤ vm.supply) (parent : BitVec 64) (i : Fin 512)
    (flags : MapFlags) :
    ∃ table vm', vm.nextTable parent i flags = (.ok table, vm') ∧ n ≤ vm'.supply := by
  unfold Vmm.nextTable Vmm.allocTable
  dsimp only
  split
  · exact ⟨_, _, rfl, Nat.le_of_succ_le h⟩
  · unfold Vmm.supply at h
    cases hheap : vm.heap with
    | nil => simp [hheap] at h
    | cons answer rest =>
      cases answer with
      | none => simp [hheap] at h
      | some page =>
        refine ⟨_, _, rfl, ?_⟩
        rw [hheap] at h
        exact Nat.le_of_succ_le_succ h

def Aligned (addr : BitVec 64) : Prop := addr &&& (pageSize - 1) = 0

theorem mapPage_supplied (h : n + 3 ≤ vm.supply) (cr3 : BitVec 64) {virt phys : BitVec 64}
    (hvirt : Aligned virt) (hphys : Aligned phys) (flags : MapFlags) :
    ∃ vm', vm.mapPage cr3 virt phys flags = (.ok (), vm') ∧ n ≤ vm'.supply := by
  obtain ⟨pdpt, vm₁, h₁, hn₁⟩ := nextTable_supplied h (cr3 &&& addrMask) (pml4Index virt) flags
  obtain ⟨pd, vm₂, h₂, hn₂⟩ := nextTable_supplied hn₁ pdpt (pdptIndex virt) flags
  obtain ⟨pt, vm₃, h₃, hn₃⟩ := nextTable_supplied hn₂ pd (pdIndex virt) flags
  unfold Aligned at hvirt hphys
  unfold Vmm.mapPage
  simp only [hvirt, hphys, ne_eq, not_true_eq_false, or_self, if_false, h₁, h₂, h₃]
  exact ⟨_, rfl, hn₃⟩

theorem aligned_iff {addr : BitVec 64} : Aligned addr ↔ addr.toNat % 4096 = 0 := by
  unfold Aligned
  rw [← BitVec.toNat_inj, BitVec.toNat_and,
    show (pageSize - 1 : BitVec 64).toNat = 2 ^ 12 - 1 by decide, Nat.and_two_pow_sub_one_eq_mod]
  rfl

theorem aligned_add {addr : BitVec 64} (h : Aligned addr) (page : BitVec 64) :
    Aligned (addr + page * pageSize) := by
  rw [aligned_iff] at h ⊢
  rw [BitVec.toNat_add, BitVec.toNat_mul, show (pageSize : BitVec 64).toNat = 4096 by decide]
  omega

theorem mapPages_supplied {cr3 virt phys : BitVec 64} (hvirt : Aligned virt) (hphys : Aligned phys)
    (flags : MapFlags) {pages : Nat} (page : BitVec 64) (h : n + 3 * pages ≤ vm.supply) :
    (Vmm.mapPages cr3 virt phys flags pages page vm).1 = .ok () ∧
      n ≤ (Vmm.mapPages cr3 virt phys flags pages page vm).2.supply := by
  induction pages generalizing page vm with
  | zero => exact ⟨rfl, h⟩
  | succ pages ih =>
    have hhere : n + 3 * pages + 3 ≤ vm.supply := h
    obtain ⟨vm', hmap, hrest⟩ := mapPage_supplied hhere cr3 (aligned_add hvirt page)
      (aligned_add hphys page) flags
    rw [Vmm.mapPages, hmap]
    exact ih (page + 1) hrest

/-- With enough page tables to come, a range is mapped as a whole or not at all. -/
theorem mapRange_supplied {virt : BitVec 64} (hvirt : Aligned virt) {size : Nat}
    (cr3 phys : BitVec 64) (flags : MapFlags) (h : 3 * divCeil size 4096 ≤ vm.supply) :
    (vm.mapRange cr3 virt phys size flags).1 = .ok () ∨
      (vm.mapRange cr3 virt phys size flags).2 = vm := by
  by_cases hphys : Aligned phys
  · exact .inl (mapPages_supplied hvirt hphys flags 0 (by rwa [Nat.zero_add])).1
  · unfold Vmm.mapRange
    cases divCeil size 4096 with
    | zero => exact .inr rfl
    | succ pages =>
      have hbad : ¬Aligned (phys + 0 * pageSize) := by
        rwa [show phys + 0 * pageSize = phys by simp]
      have hfirst : vm.mapPage cr3 (virt + 0 * pageSize) (phys + 0 * pageSize) flags =
          (.error .invalidAddress, vm) := by
        unfold Vmm.mapPage
        rw [if_pos (.inr hbad)]
      rw [Vmm.mapPages, hfirst]
      exact .inr rfl

end Supply

/-- The frames of consecutive pages, as entries hold them. -/
def framesFrom (phys : BitVec 64) (count : Nat) : List Nat :=
  (List.range count).map fun i => ((phys + BitVec.ofNat 64 (i * 4096)) &&& addrMask).toNat

theorem framesFrom_succ (phys : BitVec 64) (count : Nat) :
    framesFrom phys (count + 1) = framesFrom phys count ++
      [((phys + BitVec.ofNat 64 (count * 4096)) &&& addrMask).toNat] := by
  rw [framesFrom, List.range_succ, List.map_append]
  rfl

@[simp] theorem length_framesFrom (phys : BitVec 64) (count : Nat) :
    (framesFrom phys count).length = count := by
  rw [framesFrom, List.length_map, List.length_range]

theorem getElem?_framesFrom (phys : BitVec 64) {count i : Nat} (h : i < count) :
    ((framesFrom phys count).map some)[i]? =
      some (some ((phys + BitVec.ofNat 64 (i * 4096)) &&& addrMask).toNat) := by
  simp [framesFrom, h]

theorem forall_le_succ_iff {n : Nat} {P : Nat → Prop} :
    (∀ m ≤ n + 1, P m) ↔ P 0 ∧ ∀ m ≤ n, P (m + 1) := by
  refine ⟨fun h => ⟨h 0 (Nat.zero_le _), fun m hm => h _ (Nat.succ_le_succ hm)⟩, fun h m hm => ?_⟩
  cases m with
  | zero => exact h.1
  | succ m => exact h.2 m (Nat.le_of_succ_le_succ hm)

/-- The loop of `map_range` behind `done` pages. It maps all the others or stops at one, as it does
for every number of pages that it is to map. -/
theorem shows_mapPages {vm : Vmm} {roots : List (BitVec 64)} {pages : Pages}
    {cr3 virt : BitVec 64} (hroot : cr3 &&& addrMask ∈ roots) (phys : BitVec 64) (flags : MapFlags)
    {done rest : Nat} (hrange : UserRange virt (done + rest))
    (h : Shows roots vm (pages.fill (cr3 &&& addrMask) (virt.toNat / 4096)
      ((framesFrom phys done).map some))) :
    ∃ count, done ≤ count ∧ count ≤ done + rest ∧
      Shows roots (Vmm.mapPages cr3 virt phys flags rest (BitVec.ofNat 64 done) vm).2
        (pages.fill (cr3 &&& addrMask) (virt.toNat / 4096) ((framesFrom phys count).map some)) ∧
      ∀ m ≤ rest, (Vmm.mapPages cr3 virt phys flags m (BitVec.ofNat 64 done) vm).1 = .ok () ↔
        done + m ≤ count := by
  induction rest generalizing done vm with
  | zero =>
    refine ⟨done, Nat.le_refl _, Nat.le_refl _, h, fun m hm => ?_⟩
    obtain rfl := Nat.le_zero.mp hm
    exact iff_of_true rfl (Nat.le_refl _)
  | succ rest ih =>
    have hhere : done < done + (rest + 1) := by omega
    have hoffset : BitVec.ofNat 64 done * pageSize = BitVec.ofNat 64 (done * 4096) := by
      rw [BitVec.ofNat_mul]
      rfl
    have hlength : ((framesFrom phys done).map some).length = done := by simp
    have hmap := h.mapNext hroot hrange hlength hhere (phys + BitVec.ofNat 64 (done * 4096)) flags
    simp only [forall_le_succ_iff, Vmm.mapPages, hoffset]
    generalize vm.mapPage cr3 _ _ flags = result at hmap ⊢
    obtain ⟨answer, vm'⟩ := result
    cases answer with
    | error e =>
      exact ⟨done, Nat.le_refl _, Nat.le_add_right _ _, hmap, iff_of_true trivial (Nat.le_refl _),
        fun m _ => iff_of_false nofun (by omega)⟩
    | ok =>
      dsimp only at hmap ⊢
      have hsucc := congrArg (List.map some) (framesFrom_succ phys done)
      rw [List.map_append, List.map_singleton] at hsucc
      rw [← hsucc] at hmap
      obtain ⟨count, hle, hbound, hshows, hcount⟩ :=
        ih (by rwa [Nat.add_assoc, Nat.add_comm 1]) hmap
      rw [BitVec.ofNat_add] at hshows hcount
      refine ⟨count, by omega, by omega, hshows, iff_of_true trivial (by omega), fun m hm => ?_⟩
      exact (hcount m hm).trans (by omega)

theorem shows_mapRange {vm : Vmm} {roots : List (BitVec 64)} {pages : Pages}
    (h : Shows roots vm pages) {cr3 virt : BitVec 64} (hroot : cr3 &&& addrMask ∈ roots)
    (phys : BitVec 64) (flags : MapFlags) {size : Nat}
    (hrange : UserRange virt (divCeil size 4096)) :
    ∃ count, count ≤ divCeil size 4096 ∧
      Shows roots (vm.mapRange cr3 virt phys size flags).2
        (pages.fill (cr3 &&& addrMask) (virt.toNat / 4096) ((framesFrom phys count).map some)) ∧
      ∀ m ≤ divCeil size 4096,
        (Vmm.mapPages cr3 virt phys flags m 0 vm).1 = .ok () ↔ m ≤ count := by
  obtain ⟨count, -, hbound, hshows, hcount⟩ := @shows_mapPages _ _ pages _ _ hroot phys flags 0 _
    (by rwa [Nat.zero_add]) (by simpa [framesFrom] using h)
  simp only [Nat.zero_add] at hbound hcount
  exact ⟨count, hbound, hshows, hcount⟩

end KazuOS.Memory

namespace KazuOS.Kernel

open KazuOS.Task

theorem releaseFramebuffer_onTasks (k : Kernel) (f : Tasks → Tasks) (pid : Nat) :
    (k.onTasks f).releaseFramebuffer pid = (k.releaseFramebuffer pid).onTasks f := by
  unfold releaseFramebuffer
  have hsame : (k.onTasks f).fbOwner = k.fbOwner := rfl
  by_cases howner : k.fbOwner = some pid
  · rw [if_pos howner, if_pos (hsame.trans howner)]
    rfl
  · rw [if_neg howner, if_neg fun h => howner (hsame.symm.trans h)]

/-- Of what the end of a process does, giving the framebuffer back is all that matters here. -/
theorem teardown_focus (k : Kernel) {cpu : Nat} (hpid : k.tasks.currentPid cpu ≠ 0) :
    (k.teardown cpu).fbOwner = (k.releaseFramebuffer (k.tasks.currentPid cpu)).fbOwner ∧
      (k.teardown cpu).keyboard = (k.releaseFramebuffer (k.tasks.currentPid cpu)).keyboard := by
  obtain ⟨tasks, hteardown⟩ := teardown_eq k hpid
  obtain ⟨_, _, _, _, _, _, hfreed⟩ := (k.disowned cpu).freeMemory_eq cpu (k.tasks.currentPid cpu)
  have hdetach : ∀ k' : Kernel, ((k'.closeAll (k.tasks.currentPid cpu)).releaseIrqForPid
      (k.tasks.currentPid cpu)).fbOwner = k'.fbOwner ∧
      ((k'.closeAll (k.tasks.currentPid cpu)).releaseIrqForPid
        (k.tasks.currentPid cpu)).keyboard = k'.keyboard := by
    intro k'
    obtain ⟨_, _, _, hclosed⟩ := k'.closeAll_eq (k.tasks.currentPid cpu)
    obtain ⟨_, _, _, _, hirq⟩ :=
      (k'.closeAll (k.tasks.currentPid cpu)).releaseIrqForPid_eq (k.tasks.currentPid cpu)
    rw [hirq, hclosed]
    exact ⟨rfl, rfl⟩
  rw [hteardown, hfreed]
  dsimp only [disowned, detach]
  rw [(hdetach _).1, (hdetach _).2, releaseFramebuffer_onTasks]
  exact ⟨rfl, rfl⟩

theorem teardown_focus_kernel (k : Kernel) {cpu : Nat} (hpid : k.tasks.currentPid cpu = 0) :
    (k.teardown cpu).fbOwner = k.fbOwner ∧ (k.teardown cpu).keyboard = k.keyboard := by
  unfold teardown
  simp only [hpid, if_true]
  split <;> exact ⟨rfl, rfl⟩

/-- The end of a process that does not own the framebuffer leaves its owner alone. -/
theorem teardown_fbOwner {k : Kernel} {cpu : Nat}
    (h : k.tasks.currentPid cpu = 0 ∨ k.fbOwner ≠ some (k.tasks.currentPid cpu)) :
    (k.teardown cpu).fbOwner = k.fbOwner := by
  by_cases hpid : k.tasks.currentPid cpu = 0
  · exact (k.teardown_focus_kernel hpid).1
  · rw [(k.teardown_focus hpid).1, releaseFramebuffer, if_neg (h.resolve_left hpid)]

/-- Who is there after the end of a process was there before and is another one. -/
theorem hasProcess_of_teardown {k : Kernel} (hd : k.tasks.Distinct) {cpu pid : Nat}
    (h : hasProcess (k.teardown cpu).tasks pid = true) :
    hasProcess k.tasks pid = true ∧ (pid ≠ k.tasks.currentPid cpu ∨ k.tasks.currentPid cpu = 0) := by
  rw [hasProcess_iff, Tasks.pids_eq] at h ⊢
  obtain ⟨shape, hshape, rfl⟩ := List.mem_map.mp h
  obtain ⟨hbefore, hother⟩ := List.mem_filter.mp ((teardown_shapes hd cpu).mem_iff.mp hshape)
  exact ⟨List.mem_map_of_mem hbefore, of_decide_eq_true hother⟩

end KazuOS.Kernel

namespace KazuOS

open KazuOS.Memory KazuOS.Memory.AddressSpaces

/-- No two processes have one address space; those without have the null address. -/
def SpacesDistinct (space : Nat → BitVec 64) : Prop :=
  ∀ pid pid', space pid ≠ 0 → space pid' = space pid → pid' = pid

def smallSpace (pid : Nat) : BitVec 64 := if pid = 1 then 0x2000 else 0

theorem smallSpace_distinct : SpacesDistinct smallSpace := by
  intro pid pid' hne hsame
  unfold smallSpace at hne hsame
  split at hne
  · rename_i hpid
    split at hsame
    · rename_i hpid'
      exact hpid'.trans hpid.symm
    · cases hsame
  · exact absurd rfl hne

/-- The user half of both address spaces is empty. -/
theorem smallSpaces_empty : ∀ root ∈ smallSpaces.roots, ∀ virt, UserAddress virt →
    smallSpaces.vm.translate root virt = none := by
  intro root hroot virt huser
  have hentry : smallSpaces.vm.mem (root &&& addrMask) (pml4Index virt) = 0 := by
    have hne : pml4Index virt ≠ 0 := by
      intro hzero
      rw [UserAddress, hzero] at huser
      exact absurd huser.1 (by decide)
    simp only [smallSpaces, List.mem_cons, List.not_mem_nil, or_false] at hroot
    have huser' : 1 ≤ (pml4Index virt).val ∧ (pml4Index virt).val < 256 := huser
    obtain rfl | rfl := hroot
    · simp [smallSpaces, smallTables, Vmm.createAddressSpace, Vmm.allocTable, huser', hne]
    · simp [smallSpaces, smallTables, Vmm.createAddressSpace, Vmm.allocTable, huser', hne]
  simp only [Vmm.translate, Vmm.tableIfPresent, hentry]
  rfl

end KazuOS

namespace KazuOS.Locking

open KazuOS.Memory KazuOS.Memory.AddressSpaces KazuOS.Task KazuOS.Kernel KazuOS.Lib

/-- The page of a physical address holds pixels. -/
def FbParams.Covers (p : FbParams) (phys : BitVec 64) : Prop :=
  phys.toNat / 4096 * 4096 < p.base.toNat + p.bytes ∧
    p.base.toNat < phys.toNat / 4096 * 4096 + 4096

instance (p : FbParams) (phys : BitVec 64) : Decidable (p.Covers phys) :=
  inferInstanceAs (Decidable (_ ∧ _))

/-- What SYS_FB_ACQUIRE does to the kernel: nothing, map some of the pages and fail, or map
all and hand the framebuffer over. -/
inductive Acquires (console : Option FbParams) (cpu : Nat) (k k' : Kernel) : Prop where
  | refused (h : k' = k)
  | failed {pid : Nat} {cr3 : BitVec 64} {p : FbParams} {e : MapError} {vm : Vmm}
      (caller : k.tasks.currentUserPid cpu = some pid) (space : k.userCr3 pid = some cr3)
      (free : k.fbOwner = none) (screen : console = some p)
      (map : k.vm.mapRange cr3 userFbVa p.base p.bytes .userReadWrite = (.error e, vm))
      (h : k' = { k with vm })
  | acquired {pid : Nat} {cr3 : BitVec 64} {p : FbParams} {vm : Vmm}
      (caller : k.tasks.currentUserPid cpu = some pid) (space : k.userCr3 pid = some cr3)
      (free : k.fbOwner = none) (screen : console = some p)
      (map : k.vm.mapRange cr3 userFbVa p.base p.bytes .userReadWrite = (.ok (), vm))
      (h : k' = { k with vm, fbOwner := some pid }.flushKeyboard)

theorem exec_writeInfo (console : Option FbParams) (out : Bool) (k : Kernel) :
    ((writeInfo console out).exec Effect.apply k).2 = k := by
  unfold writeInfo
  split
  · simp [fbParams]
  · rfl

theorem acquires_acquire {console : Option FbParams} {cpu pid : Nat} {cr3 : BitVec 64} {k : Kernel}
    (hpid : k.tasks.currentUserPid cpu = some pid) (hspace : k.userCr3 pid = some cr3) (out : Bool) :
    Acquires console cpu k ((acquire console pid cr3 out).exec Effect.apply k).2 := by
  unfold acquire
  rw [Prog.exec_bind, exec_look]
  dsimp only
  cases howner : k.fbOwner with
  | some owner =>
    dsimp only
    split
    · exact .refused (exec_writeInfo console out k)
    · exact .refused rfl
  | none =>
    dsimp only
    rw [Prog.exec_bind, fbParams, Prog.exec_withLock, Prog.exec_pure]
    cases hscreen : console with
    | none => exact .refused rfl
    | some p =>
      dsimp only
      rw [Prog.exec_bind, exec_modify]
      dsimp only
      cases hmap : k.vm.mapRange cr3 userFbVa p.base p.bytes .userReadWrite with
      | mk answer vm =>
        cases answer with
        | error e => exact .failed hpid hspace howner rfl hmap rfl
        | ok =>
          refine .acquired hpid hspace howner rfl hmap ?_
          dsimp only
          rw [Prog.exec_bind, exec_modify, Prog.exec_bind, exec_writeInfo]
          rfl

theorem acquires_sysFbAcquire (console : Option FbParams) (cpu : Nat) (out : Bool) (k : Kernel) :
    Acquires console cpu k ((sysFbAcquire console cpu out).exec Effect.apply k).2 := by
  unfold sysFbAcquire
  rw [Prog.exec_bind, exec_look]
  dsimp only
  cases hpid : k.tasks.currentUserPid cpu with
  | none => exact .refused rfl
  | some pid =>
    dsimp only
    rw [Prog.exec_bind, userContext, exec_withThreadsLock, Prog.exec_bind, exec_look,
      Prog.exec_pure]
    dsimp only
    cases hcontext : ((k.tasks.mainTid pid).bind k.tasks.threads.lookup).map (·.userContext) with
    | none => exact .refused rfl
    | some context =>
      apply acquires_acquire hpid
      obtain ⟨t, ht, hcontext⟩ := Option.map_eq_some_iff.mp hcontext
      simp [Kernel.userCr3, Tasks.userCr3, ht, hcontext]

theorem exec_sysFbRelease (console : Option FbParams) (cpu : Nat) (k : Kernel) :
    ((sysFbRelease console cpu).exec Effect.apply k).2 =
      match k.tasks.currentUserPid cpu with
      | some pid => k.releaseFramebuffer pid
      | none => k := by
  unfold sysFbRelease
  rw [Prog.exec_bind, exec_look]
  dsimp only
  cases k.tasks.currentUserPid cpu with
  | none => rfl
  | some pid =>
    dsimp only
    rw [exec_release]

/-! Runs. -/

/-- The kernel and the address spaces made so far. -/
structure FbWorld where
  kernel : Kernel
  roots : List (BitVec 64)

inductive FbEvent where
  | acquire (cpu : Nat) (out : Bool)
  | release (cpu : Nat)
  | exit (cpu : Nat)
  | elsewhere

/-- The process of a CPU works in its own address space. -/
def FbWorld.InOwnSpace (space : Nat → BitVec 64) (w : FbWorld) (pid : Nat) : Prop :=
  ∀ cr3, w.kernel.userCr3 pid = some cr3 → cr3 &&& addrMask = space pid ∧ space pid ∈ w.roots

/-- What the rest of the kernel may do: anything, except to change the owner or to map
pixels where there were none, above all for a new process. -/
structure FbWorld.Elsewhere (space : Nat → BitVec 64) (console : Option FbParams)
    (w w' : FbWorld) : Prop where
  owner : w'.kernel.fbOwner = w.kernel.fbOwner
  distinct : w'.kernel.tasks.Distinct
  separated : ∃ level, Separated w'.kernel.vm w'.roots level
  old : ∀ pid, hasProcess w'.kernel.tasks pid = true → hasProcess w.kernel.tasks pid = true →
    ∀ virt, UserAddress virt → ∀ phys, w'.kernel.vm.translate (space pid) virt = some phys →
      ∀ p, console = some p → p.Covers phys →
        space pid ∈ w.roots ∧ w.kernel.vm.translate (space pid) virt = some phys
  new : ∀ pid, hasProcess w'.kernel.tasks pid = true → hasProcess w.kernel.tasks pid = false →
    ∀ virt, UserAddress virt → ∀ phys, w'.kernel.vm.translate (space pid) virt = some phys →
      ∀ p, console = some p → ¬p.Covers phys

/-- An acquire is one step: no two overlap, although no lock keeps them apart. -/
inductive FbSteps (space : Nat → BitVec 64) (console : Option FbParams) :
    FbWorld → FbEvent → FbWorld → Prop where
  | acquire (w : FbWorld) (cpu : Nat) (out : Bool)
      (hown : ∀ pid, w.kernel.tasks.currentUserPid cpu = some pid → w.InOwnSpace space pid) :
      FbSteps space console w (.acquire cpu out)
        ⟨((sysFbAcquire console cpu out).exec Effect.apply w.kernel).2, w.roots⟩
  | release (w : FbWorld) (cpu : Nat) :
      FbSteps space console w (.release cpu)
        ⟨((sysFbRelease console cpu).exec Effect.apply w.kernel).2, w.roots⟩
  | exit (w : FbWorld) (cpu : Nat) (hown : w.InOwnSpace space (w.kernel.tasks.currentPid cpu))
      (hrecords : Kernel.RecordedInUserHalf w.kernel (w.kernel.tasks.currentPid cpu)) :
      FbSteps space console w (.exit cpu)
        ⟨((teardown console cpu).exec Effect.apply w.kernel).2, w.roots⟩
  | elsewhere {w w' : FbWorld} (h : FbWorld.Elsewhere space console w w') :
      FbSteps space console w .elsewhere w'

/-- The owner does not give the framebuffer back while it lives, and whoever tries to get it
finds the heap able to supply the page tables. -/
def Careful (console : Option FbParams) (w : FbWorld) : FbEvent → Prop
  | .acquire _ _ => w.kernel.fbOwner = none → ∀ p, console = some p →
      3 * divCeil p.bytes 4096 ≤ w.kernel.vm.supply
  | .release cpu => ∀ pid, w.kernel.tasks.currentUserPid cpu = some pid →
      w.kernel.fbOwner ≠ some pid
  | _ => True

/-- A process that does not own the framebuffer has no user page with pixels. -/
def Exclusive (space : Nat → BitVec 64) (console : Option FbParams) (w : FbWorld) : Prop :=
  ∀ p, console = some p → ∀ pid, hasProcess w.kernel.tasks pid = true → space pid ∈ w.roots →
    w.kernel.fbOwner ≠ some pid → ∀ virt, UserAddress virt →
    Kernel.userAccessible w.kernel.vm (space pid) virt false = true → ∀ phys,
      w.kernel.vm.translate (space pid) virt = some phys → ¬p.Covers phys

/-- Before the first call: nobody owns the framebuffer, nobody has its pages, and the pixels
fit behind `userFbVa`. -/
structure FbWorld.Booted (console : Option FbParams) (w : FbWorld) : Prop where
  distinct : w.kernel.tasks.Distinct
  separated : ∃ level, Separated w.kernel.vm w.roots level
  unmapped : ∀ p, console = some p → ∀ root ∈ w.roots, ∀ virt, UserAddress virt → ∀ phys,
    w.kernel.vm.translate root virt = some phys → ¬p.Covers phys
  fits : ∀ p, console = some p → userFbVa.toNat + p.bytes ≤ Kernel.userMax

structure FbInv (space : Nat → BitVec 64) (console : Option FbParams) (w : FbWorld) : Prop where
  distinct : w.kernel.tasks.Distinct
  separated : ∃ level, Separated w.kernel.vm w.roots level
  unmapped : ∀ p, console = some p → ∀ pid, hasProcess w.kernel.tasks pid = true →
    space pid ∈ w.roots → w.kernel.fbOwner ≠ some pid → ∀ virt, UserAddress virt → ∀ phys,
      w.kernel.vm.translate (space pid) virt = some phys → ¬p.Covers phys

section Runs

variable {space : Nat → BitVec 64} {console : Option FbParams} {w w' : FbWorld}

theorem FbWorld.Booted.inv (h : w.Booted console) : FbInv space console w :=
  ⟨h.distinct, h.separated, fun p hp pid _ hroot _ => h.unmapped p hp (space pid) hroot⟩

theorem FbInv.exclusive (h : FbInv space console w) : Exclusive space console w :=
  fun p hp pid hpid hroot howner virt huser _ => h.unmapped p hp pid hpid hroot howner virt huser

/-- The pages behind `userFbVa` that pixels take lie in the user half. -/
theorem userRange_pixels {p : FbParams} (hfits : userFbVa.toNat + p.bytes ≤ Kernel.userMax) :
    UserRange userFbVa (divCeil p.bytes 4096) := by
  have hva : userFbVa.toNat = 0x8200000000 := rfl
  have hmax : Kernel.userMax = 0x800000000000 := rfl
  unfold divCeil
  exact ⟨by omega, by omega⟩

theorem FbInv.acquire (h : FbInv space console w) (hdistinct : SpacesDistinct space)
    (hfits : ∀ p, console = some p → userFbVa.toNat + p.bytes ≤ Kernel.userMax) {cpu : Nat}
    (hown : ∀ pid, w.kernel.tasks.currentUserPid cpu = some pid → w.InOwnSpace space pid)
    (hsupply : w.kernel.fbOwner = none → ∀ p, console = some p →
      3 * divCeil p.bytes 4096 ≤ w.kernel.vm.supply) {k' : Kernel}
    (hacquires : Acquires console cpu w.kernel k') : FbInv space console ⟨k', w.roots⟩ := by
  cases hacquires with
  | refused heq =>
    rw [heq]
    exact h
  | @failed pid cr3 p e vm hcaller hspace hfree hscreen hmap heq =>
    have haligned : Aligned userFbVa := by unfold Aligned; decide
    have hsame : vm = w.kernel.vm := by
      obtain hok | hsame := mapRange_supplied haligned cr3 p.base .userReadWrite
        (hsupply hfree p hscreen)
      · rw [hmap] at hok
        cases hok
      · rw [hmap] at hsame
        exact hsame
    rw [heq, hsame]
    exact h
  | @acquired pid cr3 p vm hcaller hspace hfree hscreen hmap heq =>
    obtain ⟨hroot, hmem⟩ := hown pid hcaller cr3 hspace
    obtain ⟨level, sep⟩ := h.separated
    obtain ⟨count, -, hshows, -⟩ := shows_mapRange sep.shows (hroot ▸ hmem) p.base .userReadWrite
      (userRange_pixels (hfits p hscreen))
    rw [hmap] at hshows
    dsimp only at hshows
    rw [heq]
    refine ⟨h.distinct, hshows.separated, ?_⟩
    intro p' hp' q hq hq' howner virt huser phys hphys
    have hne : q ≠ pid := fun heq => howner (congrArg some heq.symm)
    have hother : space q ≠ cr3 &&& addrMask := by
      intro hsame
      have hlevel := sep.root _ hq'
      exact hne (hdistinct pid q (hroot ▸ hsame ▸ (sep.tables _ (by omega)).1) (hsame.trans hroot))
    have hbefore : w.kernel.fbOwner ≠ some q := by
      rw [hfree]
      exact fun h => by cases h
    change vm.translate (space q) virt = some phys at hphys
    have hsame := hshows.user _ hq' virt huser
    rw [Pages.fill_outside (fun hcovers => hother hcovers.1), ← sep.shows.user _ hq' virt huser,
      hphys] at hsame
    obtain ⟨phys', hphys', heq⟩ := Option.map_eq_some_iff.mp hsame.symm
    rw [BitVec.eq_of_toNat_eq heq] at hphys'
    exact h.unmapped p' hp' q hq hq' hbefore virt huser phys hphys'

theorem FbInv.exit (h : FbInv space console w) {cpu : Nat}
    (hown : w.InOwnSpace space (w.kernel.tasks.currentPid cpu))
    (hrecords : Kernel.RecordedInUserHalf w.kernel (w.kernel.tasks.currentPid cpu)) :
    FbInv space console ⟨w.kernel.teardown cpu, w.roots⟩ := by
  obtain ⟨level, sep⟩ := h.separated
  have hshrinks := Kernel.shrinks_teardown sep
    (fun cr3 hspace => by rw [(hown cr3 hspace).1]; exact (hown cr3 hspace).2) hrecords
  constructor
  · exact (Kernel.apply_change h.distinct cpu .teardown).distinct h.distinct
  · exact hshrinks.separated
  · intro p hp q hq hroot howner virt huser phys hphys
    obtain ⟨hbefore, hother⟩ := Kernel.hasProcess_of_teardown h.distinct hq
    apply h.unmapped p hp q hbefore hroot _ virt huser phys
      (hshrinks.before _ hroot virt huser phys hphys)
    intro howns
    apply howner
    refine (Kernel.teardown_fbOwner ?_).trans howns
    rw [howns]
    obtain hne | hkernel := hother
    · exact .inr fun heq => hne (Option.some.inj heq)
    · exact .inl hkernel

theorem FbInv.elsewhere (h : FbInv space console w) (helse : FbWorld.Elsewhere space console w w') :
    FbInv space console w' := by
  refine ⟨helse.distinct, helse.separated, ?_⟩
  intro p hp q hq _ howner virt huser phys hphys hcovers
  cases hbefore : hasProcess w.kernel.tasks q with
  | false => exact helse.new q hq hbefore virt huser phys hphys p hp hcovers
  | true =>
    obtain ⟨hroot, hold⟩ := helse.old q hq hbefore virt huser phys hphys p hp hcovers
    exact h.unmapped p hp q hbefore hroot (helse.owner ▸ howner) virt huser phys hold hcovers

theorem FbInv.step (h : FbInv space console w) (hdistinct : SpacesDistinct space)
    (hfits : ∀ p, console = some p → userFbVa.toNat + p.bytes ≤ Kernel.userMax) {e : FbEvent}
    (hstep : FbSteps space console w e w') (hcareful : Careful console w e) :
    FbInv space console w' := by
  cases hstep with
  | acquire cpu out hown =>
    exact h.acquire hdistinct hfits hown hcareful (acquires_sysFbAcquire console cpu out w.kernel)
  | release cpu =>
    have hsame : ((sysFbRelease console cpu).exec Effect.apply w.kernel).2 = w.kernel := by
      rw [exec_sysFbRelease]
      cases hpid : w.kernel.tasks.currentUserPid cpu with
      | none => rfl
      | some pid => exact if_neg (hcareful pid hpid)
    rw [hsame]
    exact h
  | exit cpu hown hrecords =>
    rw [exec_teardown]
    exact h.exit hown hrecords
  | elsewhere helse => exact h.elsewhere helse

/-- In a run in which no owner gives the framebuffer back while it lives and no attempt to get
it runs out of page tables, a process that does not own it has none of its pages. -/
theorem framebuffer_exclusive {w₀ : FbWorld} (hdistinct : SpacesDistinct space)
    (hboot : w₀.Booted console) {es : List FbEvent}
    (run : Run (fun w e w' => FbSteps space console w e w' ∧ Careful console w e) w₀ es w) :
    Exclusive space console w :=
  (run.preserves (I := FbInv space console)
    (fun _ _ _ h hstep => h.step hdistinct hboot.fits hstep.1 hstep.2) hboot.inv).exclusive

end Runs

/-- One page of pixels. -/
def smallScreen : FbParams := ⟨0x80000000, 1, 1024⟩

/-- Process 1 in an address space of its own, and a heap with the page tables for one page. -/
def smallFb : FbWorld where
  kernel :=
    { twoThreads with
      tasks := { twoThreads.tasks with
        threads := twoThreads.tasks.threads.map fun t =>
          { t with userContext := { t.userContext with cr3 := 0x2000 } } }
      vm := smallSpaces.vm }
  roots := smallSpaces.roots

def smallFbAcquired : FbWorld :=
  ⟨((sysFbAcquire (some smallScreen) 0 true).exec Effect.apply smallFb.kernel).2, smallFb.roots⟩

def smallFbReleased : FbWorld :=
  ⟨((sysFbRelease (some smallScreen) 0).exec Effect.apply smallFbAcquired.kernel).2,
    smallFbAcquired.roots⟩

theorem smallFb_booted : smallFb.Booted (some smallScreen) where
  distinct := ⟨⟨by decide, by decide⟩, ⟨by decide, by decide⟩, by decide, by decide⟩
  separated := smallSpaces_separated
  unmapped _ _ root hroot virt huser phys hphys := by
    have hnone := smallSpaces_empty root hroot virt huser
    cases hnone.symm.trans hphys
  fits _ hp := by
    cases hp
    decide

theorem smallFb_acquire :
    FbSteps smallSpace (some smallScreen) smallFb (.acquire 0 true) smallFbAcquired := by
  refine .acquire smallFb 0 true ?_
  intro pid hpid cr3 hcr3
  cases hpid
  cases hcr3
  exact ⟨by decide, by decide⟩

theorem framebuffer_exclusive_acquired :
    smallFbAcquired.kernel.fbOwner = some 1 ∧
      Exclusive smallSpace (some smallScreen) smallFbAcquired := by
  refine ⟨by decide +kernel, framebuffer_exclusive smallSpace_distinct smallFb_booted
    (.cons ⟨smallFb_acquire, ?_⟩ (.nil _))⟩
  intro _ p hp
  cases hp
  decide

/-- The owner gives the framebuffer back and goes on drawing. -/
theorem release_leaves_pixels :
    ∃ es, Run (FbSteps smallSpace (some smallScreen)) smallFb es smallFbReleased ∧
      smallFb.Booted (some smallScreen) ∧ smallFbReleased.kernel.fbOwner = none ∧
      hasProcess smallFbReleased.kernel.tasks 1 = true ∧
      Kernel.userAccessible smallFbReleased.kernel.vm 0x2000 userFbVa true = true ∧
      smallFbReleased.kernel.vm.translate 0x2000 userFbVa = some smallScreen.base ∧
      ¬Exclusive smallSpace (some smallScreen) smallFbReleased := by
  have howner : smallFbReleased.kernel.fbOwner = none := by decide +kernel
  have hlives : hasProcess smallFbReleased.kernel.tasks 1 = true := by decide +kernel
  have hwritable : Kernel.userAccessible smallFbReleased.kernel.vm 0x2000 userFbVa true = true := by
    decide +kernel
  have hreadable : Kernel.userAccessible smallFbReleased.kernel.vm 0x2000 userFbVa false = true := by
    decide +kernel
  have hpixels : smallFbReleased.kernel.vm.translate 0x2000 userFbVa = some smallScreen.base := by
    decide +kernel
  have huser : UserAddress userFbVa := by decide
  have hcovers : smallScreen.Covers smallScreen.base := by decide
  refine ⟨_, .cons smallFb_acquire (.cons (.release smallFbAcquired 0) (.nil _)), smallFb_booted,
    howner, hlives, hwritable, hpixels, ?_⟩
  intro hexclusive
  exact hexclusive smallScreen rfl 1 hlives (by decide) (by rw [howner]; exact fun h => nomatch h)
    userFbVa huser hreadable _ hpixels hcovers

end KazuOS.Locking
