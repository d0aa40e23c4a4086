import KazuOS.Kernel.MemoryCalls
import KazuOS.Memory.FrameOwnership
import KazuOS.Memory.PhysicalBytes

/-! Calls that map pages one at a time. When a step fails they undo the steps before it, on the
assumption that the pages were not mapped when the call began. -/
namespace KazuOS

open KazuOS.Memory KazuOS.Memory.Pmm KazuOS.Memory.FrameOwnership

/-! Frames that are taken one by one. -/

/-- The frame allocator before and after some free frames were taken. -/
structure Takes (pmm pmm' : Pmm) (frames : List Nat) : Prop where
  total : pmm'.totalFrames = pmm.totalFrames
  length : pmm'.bitmap.length = pmm.bitmap.length
  nodup : frames.Nodup
  fresh : ∀ frame ∈ frames, frame % 4096 = 0 ∧ FreeFrame pmm (frame / 4096)
  used : ∀ n, getBit pmm'.bitmap n = true ↔ getBit pmm.bitmap n = true ∨ n * 4096 ∈ frames

section Takes

variable {pmm pmm' : Pmm}

theorem Takes.sized {frames : List Nat} (h : Takes pmm pmm' frames) (hsized : pmm.Sized) :
    pmm'.Sized := by
  unfold Pmm.Sized
  rw [h.total, h.length]
  exact hsized

theorem takes_allocFrame (hsized : pmm.Sized) {frame : Nat}
    (h : pmm.allocFrame = (some frame, pmm')) : Takes pmm pmm' [frame] := by
  have halloc := allocFrame_allocates pmm
  rw [h] at halloc
  obtain ⟨start, rfl, hlt, hfree, hbitmap⟩ := halloc.found frame rfl
  rw [setBits_one] at hbitmap
  have hbound : start < pmm.bitmap.length * 8 := by
    unfold Pmm.Sized at hsized
    omega
  have hzero := hfree 0 Nat.zero_lt_one
  refine ⟨halloc.total, ?_, List.nodup_singleton _, ?_, ?_⟩
  · rw [hbitmap, length_setBit]
  · intro f hf
    obtain rfl := List.mem_singleton.mp hf
    rw [Nat.mul_mod_left, Nat.mul_div_cancel _ (by decide)]
    exact ⟨rfl, by omega, hzero⟩
  · intro n
    rw [hbitmap, getBit_setBit _ _ _ _ hbound, List.mem_singleton]
    split
    · rename_i heq
      simp [heq]
    · rename_i hne
      have hmul : n * 4096 ≠ start * frameSize := fun heq => hne (by
        unfold frameSize at heq
        omega)
      simp [hmul]

end Takes

end KazuOS

namespace KazuOS.MemoryKernel

open KazuOS.Kernel KazuOS.Memory KazuOS.Memory.AddressSpaces KazuOS.Memory.Pmm KazuOS.Task

/-! The whole of `sys_heap_alloc`. The bytes of frames are kept apart from the page tables, which
come from the kernel heap. -/

/-- `write_bytes(frame, 0, 4096)`. -/
def zeroFrame (memory : Nat → BitVec 8) (frame : Nat) : Nat → BitVec 8 :=
  fun addr => if frame ≤ addr ∧ addr < frame + 4096 then 0 else memory addr

/-- What a round of the loop does to the bytes: a frame is zeroed before it is mapped. -/
def heapMemory (k : MemoryKernel) (call : HeapCall) (memory : Nat → BitVec 8) : Nat → BitVec 8 :=
  if call.mapped = call.size.toNat / 4096 then memory else
    match k.pmm.allocFrame.1 with
    | some frame => zeroFrame memory frame
    | none => memory

/-- A call that has ended, in a round that began with `mapped` pages. -/
structure HeapRun where
  result : Nat
  mapped : Nat
  kernel : MemoryKernel
  memory : Nat → BitVec 8
  released : List Nat

/-- The loop. Before each round other processes give some frames back. -/
def heapRounds : List (List Nat) → MemoryKernel → (Nat → BitVec 8) → HeapCall → Option HeapRun
  | [], _, _, _ => none
  | frames :: rest, k, memory, call =>
      let k := { k with pmm := frames.foldl freeFrame k.pmm }
      let memory := heapMemory k call memory
      match k.heapTurn call with
      | (.done result, k) => some ⟨result, call.mapped, k, memory, frames⟩
      | (.again call, k) =>
          (heapRounds rest k memory call).map fun run =>
            { run with released := frames ++ run.released }

/-- None if the call has not ended after as many rounds as there are lists. -/
def sysHeapAlloc (k : MemoryKernel) (others : List (List Nat)) (memory : Nat → BitVec 8) (cpu : Nat)
    (size : BitVec 64) : Option HeapRun :=
  match k.heapReserve cpu size with
  | (none, k) => some ⟨failure, 0, k, memory, []⟩
  | (some call, k) => heapRounds others k memory call

/-! What is to hold. -/

structure KeptRecords (k k' : ShmKernel) : Prop where
  heapAllocs : k'.heapAllocs = k.heapAllocs
  shmObjects : k'.shmObjects = k.shmObjects
  nextShmId : k'.nextShmId = k.nextShmId
  bytes : (k'.tasks.processes.map fun p => (p.pid, p.memoryBytes)) =
    k.tasks.processes.map fun p => (p.pid, p.memoryBytes)

/-- Nothing is seen of a call in the address space of the caller, in the records or in the frame
allocator, except for frames that others gave back. -/
structure Unseen (space : Option (BitVec 64)) (k k' : ShmKernel) (released : List Nat) : Prop where
  pages : ∀ cr3 ∈ space, ∀ virt, UserAddress virt →
    k'.vm.translate cr3 virt = k.vm.translate cr3 virt
  frames : Frees (fun n => ∃ frame ∈ released, n = frame / frameSize) k.pmm k'.pmm
  records : KeptRecords k k'

/-- The pages behind `virt` lead to different frames, which were free before or given back
meanwhile, and which are zero. -/
def MapsZeroed (k : MemoryKernel) (cr3 virt : BitVec 64) (count : Nat) (run : HeapRun) : Prop :=
  ∃ frames : List Nat, frames.length = count ∧ frames.Nodup ∧ ∀ i frame, frames[i]? = some frame →
    run.kernel.vm.translate cr3 (virt + BitVec.ofNat 64 (i * 4096)) = some (BitVec.ofNat 64 frame) ∧
    (FrameOwnership.FreeFrame k.pmm (frame / 4096) ∨ ∃ f ∈ run.released, frame / 4096 = f / frameSize) ∧
    ∀ j < 4096, run.memory (frame + j) = 0

/-- What SYS_HEAP_ALLOC and SYS_SHM_MAP promise. -/
structure AllOrNothing (k : MemoryKernel) (others : List (List Nat)) (memory : Nat → BitVec 8)
    (cpu : Nat) (size : BitVec 64) (id : Nat) : Prop where
  heapFailed : ∀ run, k.sysHeapAlloc others memory cpu size = some run → run.result = failure →
    Unseen (k.userCr3 (k.callerPid cpu)) k.toShmKernel run.kernel.toShmKernel run.released
  heapMapped : ∀ run, k.sysHeapAlloc others memory cpu size = some run → run.result ≠ failure →
    run.result = k.heapVaBump.toNat ∧ ∃ cr3, k.userCr3 (k.callerPid cpu) = some cr3 ∧
      MapsZeroed k cr3 k.heapVaBump (divCeil size.toNat 4096) run
  shmFailed : (k.toShmKernel.map cpu id).1 = failure →
    Unseen (some (k.activeCr3 cpu)) k.toShmKernel (k.toShmKernel.map cpu id).2 []

/-- The call fails behind a page of its range that was mapped before it. -/
def UndoesMapped (k : MemoryKernel) (others : List (List Nat)) (memory : Nat → BitVec 8) (cpu : Nat)
    (size : BitVec 64) : Prop :=
  ∃ run cr3, k.sysHeapAlloc others memory cpu size = some run ∧ run.result = failure ∧
    k.userCr3 (k.callerPid cpu) = some cr3 ∧ ∃ i < run.mapped,
      k.vm.translate cr3 (k.heapVaBump + BitVec.ofNat 64 (i * 4096)) ≠ none

/-! Frames. -/

/-- Frames of other processes: in use when the call begins, and given back once. -/
structure Others (pmm : Pmm) (released : List Nat) : Prop where
  used : ∀ frame ∈ released, getBit pmm.bitmap (frame / frameSize) = true
  once : (released.map (· / frameSize)).Nodup

/-- The frame allocator after others gave back `released` and the call took `taken`. -/
structure Holds (pmm₀ pmm : Pmm) (released taken : List Nat) : Prop where
  total : pmm.totalFrames = pmm₀.totalFrames
  length : pmm.bitmap.length = pmm₀.bitmap.length
  used : ∀ n, getBit pmm.bitmap n = true ↔
    (getBit pmm₀.bitmap n = true ∧ ¬∃ frame ∈ released, n = frame / frameSize) ∨ n * 4096 ∈ taken
  nodup : taken.Nodup
  fresh : ∀ frame ∈ taken, frame % 4096 = 0 ∧ frame / 4096 < pmm₀.totalFrames ∧
    (getBit pmm₀.bitmap (frame / 4096) = false ∨ ∃ f ∈ released, frame / 4096 = f / frameSize)

namespace Holds

variable {pmm₀ pmm pmm' : Pmm} {released taken : List Nat}

theorem refl (pmm : Pmm) : Holds pmm pmm [] [] :=
  ⟨rfl, rfl, fun n => by simp, List.nodup_nil, nofun⟩

theorem sized (h : Holds pmm₀ pmm released taken) (hsized : pmm₀.Sized) : pmm.Sized := by
  unfold Pmm.Sized
  rw [h.total, h.length]
  exact hsized

theorem release (h : Holds pmm₀ pmm released taken) (hsized : pmm₀.Sized) {frames rest : List Nat}
    (hothers : Others pmm₀ (released ++ (frames ++ rest))) :
    Holds pmm₀ (frames.foldl freeFrame pmm) (released ++ frames) taken := by
  have hfrees := frees_foldl (h.sized hsized) frames
  have hapart : ∀ n, n * 4096 ∈ taken → ¬∃ frame ∈ frames, n = frame / frameSize := by
    rintro n hn ⟨frame, hframe, rfl⟩
    obtain ⟨-, -, hfree⟩ := h.fresh _ hn
    rw [Nat.mul_div_cancel _ (by decide)] at hfree
    obtain hfree | ⟨f, hf, hsame⟩ := hfree
    · rw [hothers.used frame (by simp [hframe])] at hfree
      cases hfree
    · -- a frame given back before is not given back again
      have honce := hothers.once
      rw [List.map_append, List.nodup_append] at honce
      exact honce.2.2 _ (List.mem_map_of_mem hf) _
        (List.mem_map_of_mem (List.mem_append_left rest hframe)) hsame.symm
  refine ⟨hfrees.total.trans h.total, hfrees.length.trans h.length, ?_, h.nodup, ?_⟩
  · intro n
    have hn := hapart n
    rw [hfrees.used, h.used]
    simp only [List.mem_append, or_and_right, exists_or]
    generalize (∃ frame ∈ frames, n = frame / frameSize) = now at hn ⊢
    generalize (∃ frame ∈ released, n = frame / frameSize) = before
    tauto
  · intro frame hframe
    obtain ⟨haligned, hlt, hfree⟩ := h.fresh frame hframe
    exact ⟨haligned, hlt, hfree.imp_right fun ⟨f, hf, hsame⟩ => ⟨f, List.mem_append_left _ hf, hsame⟩⟩

theorem take (h : Holds pmm₀ pmm released taken) {frame : Nat} (htakes : Takes pmm pmm' [frame]) :
    Holds pmm₀ pmm' released (taken ++ [frame]) := by
  obtain ⟨haligned, hlt, hfree⟩ := htakes.fresh frame (List.mem_singleton_self frame)
  have hnot := mt (h.used (frame / 4096)).mpr (by simp [hfree])
  have hback : frame / 4096 * 4096 = frame := by omega
  rw [not_or, hback] at hnot
  refine ⟨htakes.total.trans h.total, htakes.length.trans h.length, ?_, ?_, ?_⟩
  · intro n
    rw [htakes.used, h.used, List.mem_append, or_assoc]
  · rw [List.nodup_append]
    refine ⟨h.nodup, List.nodup_singleton _, ?_⟩
    rintro f hf g hg rfl
    rw [List.mem_singleton.mp hg] at hf
    exact hnot.2 hf
  · intro f hf
    rcases List.mem_append.mp hf with hf | hf
    · exact h.fresh f hf
    · obtain rfl := List.mem_singleton.mp hf
      refine ⟨haligned, h.total ▸ hlt, ?_⟩
      rw [← Bool.not_eq_true]
      tauto

/-- Giving back what was taken leaves what others gave back. -/
theorem undo (h : Holds pmm₀ pmm released taken) (hfrees : Frees (· * 4096 ∈ taken) pmm pmm') :
    Frees (fun n => ∃ frame ∈ released, n = frame / frameSize) pmm₀ pmm' := by
  refine ⟨hfrees.total.trans h.total, hfrees.length.trans h.length, ?_⟩
  intro n
  have hfresh := h.fresh (n * 4096)
  rw [Nat.mul_div_cancel _ (by decide), ← Bool.not_eq_true] at hfresh
  rw [hfrees.used, h.used]
  generalize (∃ frame ∈ released, n = frame / frameSize) = before at hfresh ⊢
  tauto

end Holds

/-! The loop. -/

theorem KeptRecords.refl (k : ShmKernel) : KeptRecords k k := ⟨rfl, rfl, rfl, rfl⟩

/-- Telling a process to die changes no size. -/
theorem bytes_oomKill (ts : Tasks) (caller : Nat) :
    ((oomKill ts caller).2.processes.map fun p => (p.pid, p.memoryBytes)) =
      ts.processes.map fun p => (p.pid, p.memoryBytes) := by
  have hkill : ∀ victim, ((ts.killPid victim).processes.map fun p => (p.pid, p.memoryBytes)) =
      ts.processes.map fun p => (p.pid, p.memoryBytes) := by
    intro victim
    have hsame := congrArg (List.map fun p => (p.pid, p.memoryBytes)) (unmarked_killPid ts victim)
    rw [List.map_map, List.map_map] at hsame
    exact hsame
  unfold oomKill
  split
  · split
    · exact hkill _
    · rfl
  · rfl

/-- Where a call maps its pages. -/
structure Placing (roots : List (BitVec 64)) (k₀ : MemoryKernel) (call : HeapCall) : Prop where
  root : call.cr3 &&& addrMask ∈ roots
  range : UserRange call.virt (call.size.toNat / 4096)
  sized : k₀.pmm.Sized
  frames : k₀.pmm.totalFrames ≤ 2 ^ 40

/-- A call that has mapped the frames `taken`. -/
structure Building (roots : List (BitVec 64)) (k₀ : MemoryKernel) (pages : Pages)
    (k : MemoryKernel) (memory : Nat → BitVec 8) (call : HeapCall) (released taken : List Nat) :
    Prop where
  shows : Shows roots k.vm
    (pages.fill (call.cr3 &&& addrMask) (call.virt.toNat / 4096) (taken.map some))
  holds : Holds k₀.pmm k.pmm released taken
  count : taken.length = call.mapped
  within : call.mapped ≤ call.size.toNat / 4096
  zeroed : ∀ frame ∈ taken, ∀ j < 4096, memory (frame + j) = 0
  records : KeptRecords k₀.toShmKernel k.toShmKernel

/-- A call that has undone what it did: the pages it had mapped are empty. -/
structure GivenUp (roots : List (BitVec 64)) (k₀ : MemoryKernel) (pages : Pages)
    (k : MemoryKernel) (call : HeapCall) (released : List Nat) : Prop where
  shows : Shows roots k.vm (pages.fill (call.cr3 &&& addrMask) (call.virt.toNat / 4096)
    (List.replicate call.mapped none))
  frames : Frees (fun n => ∃ frame ∈ released, n = frame / frameSize) k₀.pmm k.pmm
  records : KeptRecords k₀.toShmKernel k.toShmKernel

section Loop

variable {roots : List (BitVec 64)} {k₀ k : MemoryKernel} {pages : Pages}
  {memory : Nat → BitVec 8} {call : HeapCall} {released taken : List Nat}

theorem Placing.later (h : Placing roots k₀ call) (mapped : Nat) :
    Placing roots k₀ { call with mapped } :=
  ⟨h.root, h.range, h.sized, h.frames⟩

variable {cr3 virt : BitVec 64} {vm : Vmm} {pmm : Pmm}

theorem translate_taken (hroot : cr3 &&& addrMask ∈ roots)
    (hshows : Shows roots vm (pages.fill (cr3 &&& addrMask) (virt.toNat / 4096) (taken.map some)))
    (hrange : UserRange virt taken.length) {i frame : Nat} (hget : taken[i]? = some frame) :
    (vm.translate cr3 (virt + BitVec.ofNat 64 (i * 4096))).map BitVec.toNat = some frame := by
  have hi := (List.getElem?_eq_some_iff.mp hget).1
  have hentry : (taken.map some)[i]? = some (some frame) := by
    rw [List.getElem?_map, hget]
    rfl
  rw [hshows.cr3_eq hroot (hrange.user hi), hrange.page_eq hi, Pages.fill_inside hentry]

/-- The frames behind the pages of a call are those it took. -/
theorem frameAt_taken (hroot : cr3 &&& addrMask ∈ roots)
    (hshows : Shows roots vm (pages.fill (cr3 &&& addrMask) (virt.toNat / 4096) (taken.map some)))
    (hrange : UserRange virt taken.length) (haligned : ∀ frame ∈ taken, frame % 4096 = 0) (n : Nat) :
    (∃ v ∈ pagesFrom virt taken.length, frameAt vm cr3 v = some n) ↔ n * 4096 ∈ taken := by
  have hat : ∀ i frame, taken[i]? = some frame →
      frameAt vm cr3 (virt + BitVec.ofNat 64 (i * 4096)) = some (frame / 4096) := by
    intro i frame hget
    obtain ⟨phys, hphys, rfl⟩ :=
      Option.map_eq_some_iff.mp (translate_taken hroot hshows hrange hget)
    rw [frameAt, hphys]
    rfl
  constructor
  · rintro ⟨v, hv, hframe⟩
    obtain ⟨i, hi, rfl⟩ := List.mem_map.mp hv
    obtain ⟨frame, hget⟩ : ∃ frame, taken[i]? = some frame :=
      ⟨_, List.getElem?_eq_getElem (List.mem_range.mp hi)⟩
    have hmem := List.mem_of_getElem? hget
    rw [hat i frame hget] at hframe
    have hmod := haligned frame hmem
    have hback : n * 4096 = frame := by
      have hdiv := Option.some.inj hframe
      omega
    rwa [hback]
  · intro hmem
    obtain ⟨i, hget⟩ := List.mem_iff_getElem?.mp hmem
    refine ⟨_, List.mem_map.mpr ⟨i, ?_, rfl⟩, ?_⟩
    · exact List.mem_range.mpr (List.getElem?_eq_some_iff.mp hget).1
    · rw [hat i _ hget, Nat.mul_div_cancel _ (by decide)]

/-- Giving up, with the frames `hand` already given back. -/
theorem givenUp_freePages (place : Placing roots k₀ call) (hshows : Shows roots k.vm
      (pages.fill (call.cr3 &&& addrMask) (call.virt.toNat / 4096) (taken.map some)))
    (hcount : taken.length = call.mapped) (hwithin : call.mapped ≤ call.size.toNat / 4096)
    {hand : List Nat} (hholds : Holds k₀.pmm pmm released (taken ++ hand))
    (hfrees : Frees (· * 4096 ∈ hand) pmm k.pmm)
    (hrecords : KeptRecords k₀.toShmKernel k.toShmKernel) :
    GivenUp roots k₀ pages (k.freePages call.cr3 call.virt call.mapped) call released := by
  have hrange := place.range.mono hwithin
  rw [← hcount] at hrange
  obtain ⟨level, sep⟩ := hshows.separated
  have huser : ∀ v ∈ pagesFrom call.virt taken.length, UserAddress v := by
    intro v hv
    obtain ⟨i, hi, rfl⟩ := List.mem_map.mp hv
    exact hrange.user (List.mem_range.mp hi)
  have hloop : (k.freePages call.cr3 call.virt call.mapped).pmm =
        ((pagesFrom call.virt taken.length).foldl (freeUserPage call.cr3) (k.pmm, k.vm)).1 ∧
      (k.freePages call.cr3 call.virt call.mapped).vm =
        ((pagesFrom call.virt taken.length).foldl (freeUserPage call.cr3) (k.pmm, k.vm)).2 := by
    rw [← freeUserPages_eq, hcount]
    exact ⟨rfl, rfl⟩
  refine ⟨?_, ?_, hrecords.heapAllocs, hrecords.shmObjects, hrecords.nextShmId, hrecords.bytes⟩
  · have hback := shows_unmapPages hshows place.root hrange
    rw [Pages.fill_fill (by simp), unmapPages, ← List.foldl_map, ← pagesFrom] at hback
    rw [hloop.2, foldl_freeUserPage_vm, ← hcount]
    exact hback
  · rw [hloop.1]
    have hpages := frees_freeUserPages sep place.root huser (hfrees.sized (hholds.sized place.sized))
    refine hholds.undo ((hfrees.trans hpages).congr fun n => ?_)
    rw [frameAt_taken place.root hshows hrange
      (fun frame hframe => (hholds.fresh frame (List.mem_append_left _ hframe)).1), List.mem_append]
    exact or_comm

/-- What a round leaves: the call goes on with one more page or none, gives up, or has mapped
all its pages. -/
inductive Turned (roots : List (BitVec 64)) (k₀ : MemoryKernel) (pages : Pages)
    (k : MemoryKernel) (memory : Nat → BitVec 8) (call : HeapCall) (released : List Nat) :
    HeapTurn × MemoryKernel → Prop where
  | again {mapped : Nat} {k' : MemoryKernel} (taken : List Nat)
      (h : Building roots k₀ pages k' memory { call with mapped } released taken) :
      Turned roots k₀ pages k memory call released (.again { call with mapped }, k')
  | gaveUp {k' : MemoryKernel} (h : GivenUp roots k₀ pages k' call released) :
      Turned roots k₀ pages k memory call released (.done failure, k')
  | finished {k' : MemoryKernel} (taken : List Nat) (vm : k'.vm = k.vm)
      (h : Building roots k₀ pages k memory { call with mapped := call.size.toNat / 4096 }
        released taken) :
      Turned roots k₀ pages k memory call released (.done call.virt.toNat, k')

theorem zeroed_concat (h : ∀ frame ∈ taken, ∀ j < 4096, memory (frame + j) = 0) (frame : Nat) :
    ∀ f ∈ taken ++ [frame], ∀ j < 4096, zeroFrame memory frame (f + j) = 0 := by
  intro f hf j hj
  unfold zeroFrame
  split
  · rfl
  rename_i hout
  rcases List.mem_append.mp hf with hf | hf
  · exact h f hf j hj
  · rw [List.mem_singleton.mp hf] at hout
    omega

/-- One more page, with the frame `frame`. -/
theorem Building.extend (place : Placing roots k₀ call)
    (h : Building roots k₀ pages k memory call released taken)
    (hhere : call.mapped < call.size.toNat / 4096) {frame : Nat}
    (hholds : Holds k₀.pmm pmm released (taken ++ [frame]))
    (hmap : Shows roots vm (pages.fill (call.cr3 &&& addrMask) (call.virt.toNat / 4096)
      (taken.map some ++ [some (BitVec.ofNat 64 frame &&& addrMask).toNat]))) :
    Building roots k₀ pages { k with pmm, vm } (zeroFrame memory frame)
      { call with mapped := call.mapped + 1 } released (taken ++ [frame]) := by
  obtain ⟨haligned, hlt, -⟩ := hholds.fresh frame (by simp)
  have hframes := place.frames
  rw [toNat_mappable haligned (by omega)] at hmap
  refine ⟨?_, hholds, ?_, hhere, zeroed_concat h.zeroed frame, ?_⟩
  · rw [List.map_append]
    exact hmap
  · rw [List.length_append, h.count]
    rfl
  · exact ⟨h.records.heapAllocs, h.records.shmObjects, h.records.nextShmId, h.records.bytes⟩

theorem Building.turn (place : Placing roots k₀ call)
    (h : Building roots k₀ pages k memory call released taken) :
    Turned roots k₀ pages k (heapMemory k call memory) call released (k.heapTurn call) := by
  unfold heapTurn heapMemory
  by_cases hall : call.mapped = call.size.toNat / 4096
  · rw [if_pos hall, if_pos hall]
    exact .finished taken rfl
      ⟨h.shows, h.holds, h.count.trans hall, Nat.le_refl _, h.zeroed, h.records⟩
  rw [if_neg hall, if_neg hall]
  generalize halloc : k.pmm.allocFrame = result
  obtain ⟨frame, pmm⟩ := result
  cases frame with
  | none =>
    have hsame := allocFrame_of_none (congrArg Prod.fst halloc)
    obtain rfl : k.pmm = pmm := congrArg Prod.snd (hsame.symm.trans halloc)
    have hrecords : ∀ active, KeptRecords k₀.toShmKernel { k.toShmKernel with
        tasks := (oomKill k.tasks call.caller).2, activeCr3 := active } := fun _ =>
      ⟨h.records.heapAllocs, h.records.shmObjects, h.records.nextShmId,
        (bytes_oomKill k.tasks call.caller).trans h.records.bytes⟩
    dsimp only
    split
    · exact .again taken
        ⟨h.shows, h.holds, h.count, h.within, h.zeroed, hrecords _⟩
    · have hholds : Holds k₀.pmm k.pmm released (taken ++ []) := by
        rw [List.append_nil]
        exact h.holds
      refine .gaveUp (givenUp_freePages place h.shows h.count h.within hholds ?_ (hrecords _))
      exact (Frees.refl k.pmm).congr fun n => by simp
  | some frame =>
    have htakes := takes_allocFrame (h.holds.sized place.sized) halloc
    have hholds := h.holds.take htakes
    have hhere : call.mapped < call.size.toNat / 4096 := Nat.lt_of_le_of_ne h.within hall
    have hlength : (taken.map some).length = call.mapped := (List.length_map _).trans h.count
    have hmap := h.shows.mapNext place.root place.range hlength hhere (BitVec.ofNat 64 frame)
      .userReadWrite
    dsimp only
    generalize k.vm.mapPage call.cr3 _ _ _ = answer at hmap ⊢
    obtain ⟨answer, vm⟩ := answer
    cases answer with
    | error e =>
      dsimp only at hmap ⊢
      refine .gaveUp (givenUp_freePages place hmap h.count h.within hholds ?_ ?_)
      · have haligned := (hholds.fresh frame (by simp)).1
        refine (frees_freeFrame (htakes.sized (h.holds.sized place.sized)) frame).congr fun n => ?_
        rw [List.mem_singleton, show frameSize = 4096 from rfl]
        omega
      · exact ⟨h.records.heapAllocs, h.records.shmObjects, h.records.nextShmId, h.records.bytes⟩
    | ok =>
      exact .again (taken ++ [frame]) (h.extend place hhere hholds hmap)

/-- A call that has ended. -/
inductive Ended (roots : List (BitVec 64)) (k₀ : MemoryKernel) (pages : Pages) (call : HeapCall)
    (released : List Nat) (run : HeapRun) : Prop where
  | gaveUp (result : run.result = failure) (within : run.mapped ≤ call.size.toNat / 4096)
      (h : GivenUp roots k₀ pages run.kernel { call with mapped := run.mapped } released)
  | finished (result : run.result = call.virt.toNat) {k : MemoryKernel} {taken : List Nat}
      (vm : run.kernel.vm = k.vm) (h : Building roots k₀ pages k run.memory
        { call with mapped := call.size.toNat / 4096 } released taken)

theorem heapRounds_ended {rounds : List (List Nat)} (place : Placing roots k₀ call)
    (h : Building roots k₀ pages k memory call released taken)
    (hothers : Others k₀.pmm (released ++ rounds.flatten)) {run : HeapRun}
    (hrun : heapRounds rounds k memory call = some run) :
    Ended roots k₀ pages call (released ++ run.released) run := by
  induction rounds generalizing k memory call released taken run with
  | nil => cases hrun
  | cons frames rest ih =>
    rw [List.flatten_cons] at hothers
    have hgiven : Building roots k₀ pages { k with pmm := frames.foldl freeFrame k.pmm } memory call
        (released ++ frames) taken :=
      ⟨h.shows, h.holds.release place.sized hothers, h.count, h.within, h.zeroed,
        h.records.heapAllocs, h.records.shmObjects, h.records.nextShmId, h.records.bytes⟩
    have hturn := hgiven.turn place
    rw [heapRounds] at hrun
    generalize heapMemory _ call memory = memory' at hturn hrun
    generalize hresult : heapTurn _ call = result at hturn hrun
    cases hturn with
    | again taken' hnext =>
      obtain ⟨run', hrun', rfl⟩ := Option.map_eq_some_iff.mp hrun
      have hended := ih (place.later _) hnext (by rwa [List.append_assoc]) hrun'
      rw [List.append_assoc] at hended
      cases hended with
      | gaveUp result within hup => exact .gaveUp result within hup
      | finished result vm hbuilt => exact .finished result vm hbuilt
    | gaveUp hup =>
      obtain rfl := Option.some.inj hrun
      exact .gaveUp rfl h.within hup
    | finished taken' hvm hbuilt =>
      obtain rfl := Option.some.inj hrun
      exact .finished rfl hvm hbuilt

end Loop

/-! The calls. -/

theorem Unseen.refl (space : Option (BitVec 64)) (k : ShmKernel) : Unseen space k k [] :=
  ⟨fun _ _ _ _ => rfl, (Frees.refl k.pmm).congr fun n => by simp, .refl k⟩

/-- SYS_SHM_MAP takes a range that is not mapped, so it can always undo what it did. -/
theorem unseen_map {roots : List (BitVec 64)} {k : ShmKernel} {cpu : Nat} {level : BitVec 64 → Nat}
    (sep : Separated k.vm roots level) (hactive : k.activeCr3 cpu &&& addrMask ∈ roots) (id : Nat)
    (hfailed : (k.map cpu id).1 = failure) :
    Unseen (some (k.activeCr3 cpu)) k (k.map cpu id).2 [] := by
  unfold ShmKernel.map at hfailed ⊢
  split at hfailed
  · exact .refl _ k
  rename_i pid cr3 hcontext
  obtain rfl : k.activeCr3 cpu = cr3 := by
    unfold currentContext at hcontext
    split at hcontext
    · cases hcontext
    · split at hcontext
      · cases hcontext
      · exact (Prod.mk.inj (Option.some.inj hcontext)).2
  dsimp only at hfailed ⊢
  split at hfailed
  · exact .refl _ k
  rename_i shm hfind
  split at hfailed
  · exact .refl _ k
  split at hfailed
  · exact .refl _ k
  rename_i virt hrange
  have hfound := Shm.findFreeRange_found hrange
  have hwindow : InWindow virt shm.frames.length := ⟨hfound.low, hfound.high⟩
  split at hfailed
  · rename_i stop vm hmap
    have hback := shows_mapFrames_undone sep.shows hactive hwindow.userRange (fun i hi =>
      pages_eq_none sep.shows hactive hwindow.userRange hi
        (hfound.free i (by rwa [Shm.size, divCeil_pages]))) hmap
    refine ⟨?_, (Frees.refl k.pmm).congr fun n => by simp, rfl, rfl, rfl, rfl⟩
    rintro cr3 hcr3 v huser
    obtain rfl := Option.some.inj hcr3
    exact sep.shows.translate_eq hback hactive huser
  · have hlow := hwindow.high
    have hvirt : virt.toNat = Kernel.failure := hfailed
    unfold Kernel.failure at hvirt
    unfold userShmLimit at hlow
    omega

/-- Address spaces that are apart, frames that entries can hold, room for the range, and other
processes that give back what is theirs. -/
structure Ready (k : MemoryKernel) (roots : List (BitVec 64)) (others : List (List Nat)) (cpu : Nat)
    (size : BitVec 64) : Prop where
  separated : ∃ level, Separated k.vm roots level
  space : ∀ cr3, k.userCr3 (k.callerPid cpu) = some cr3 → cr3 &&& addrMask ∈ roots
  active : k.activeCr3 cpu &&& addrMask ∈ roots
  sized : k.pmm.Sized
  frames : k.pmm.totalFrames ≤ 2 ^ 40
  range : size.toNat ≤ maxAllocSize → UserRange k.heapVaBump (divCeil size.toNat 4096)
  others : Others k.pmm others.flatten

theorem toNat_pageAligned {size : BitVec 64} (h : size.toNat ≤ maxAllocSize) :
    (pageAligned size).toNat / 4096 = divCeil size.toNat 4096 := by
  have hbase : pageAligned size = pageBase (size + 4095) := rfl
  have hadd : (size + 4095).toNat = size.toNat + 4095 := by
    unfold maxAllocSize at h
    rw [BitVec.toNat_add, show (4095 : BitVec 64).toNat = 4095 from rfl]
    omega
  rw [hbase, pageBase_toNat, hadd, Nat.mul_div_cancel _ (by decide)]
  rfl

section Calls

variable {k : MemoryKernel} {roots : List (BitVec 64)} {others : List (List Nat)} {cpu : Nat}
  {size : BitVec 64} {memory : Nat → BitVec 8}

variable {call : HeapCall} {run : HeapRun}

/-- A call that has ended was refused at once, or got a range and went through the loop. -/
theorem Ready.ended (h : k.Ready roots others cpu size)
    (hrun : k.sysHeapAlloc others memory cpu size = some run) :
    run = ⟨failure, 0, k, memory, []⟩ ∨ ∃ call : HeapCall,
      k.userCr3 (k.callerPid cpu) = some call.cr3 ∧ call.virt = k.heapVaBump ∧
      call.size.toNat / 4096 = divCeil size.toNat 4096 ∧ Placing roots k call ∧
      Ended roots k (Pages.of k.vm) call run.released run := by
  obtain hrefused | ⟨caller, cr3, -, hsize, hcaller, hspace, hreserved⟩ :=
    heapReserve_cases k cpu size
  · rw [sysHeapAlloc, hrefused] at hrun
    exact .inl (Option.some.inj hrun).symm
  · rw [sysHeapAlloc, hreserved] at hrun
    have hpages := toNat_pageAligned hsize
    rw [← callerPid_of_current hcaller] at hspace
    have place : Placing roots k ⟨cpu, caller, cr3, k.heapVaBump, pageAligned size, 0⟩ := by
      refine ⟨h.space cr3 hspace, ?_, h.sized, h.frames⟩
      rw [hpages]
      exact h.range hsize
    refine .inr ⟨_, hspace, rfl, hpages, place, ?_⟩
    obtain ⟨level, sep⟩ := h.separated
    have hstart : Building roots k (Pages.of k.vm)
        { k with heapVaBump := k.heapVaBump + pageAligned size }
        memory ⟨cpu, caller, cr3, k.heapVaBump, pageAligned size, 0⟩ [] [] :=
      ⟨by simpa using sep.shows, .refl k.pmm, rfl, Nat.zero_le _, nofun, rfl, rfl, rfl, rfl⟩
    exact heapRounds_ended place hstart h.others hrun

/-- Undoing a mapping brings back what was there just if nothing was. -/
theorem GivenUp.same_iff {k' : MemoryKernel} {released : List Nat}
    {level : BitVec 64 → Nat} (sep : Separated k.vm roots level) (place : Placing roots k call)
    (hwithin : call.mapped ≤ call.size.toNat / 4096)
    (h : GivenUp roots k (Pages.of k.vm) k' call released) :
    (∀ virt, UserAddress virt → k'.vm.translate call.cr3 virt = k.vm.translate call.cr3 virt) ↔
      ∀ i < call.mapped,
        k.vm.translate call.cr3 (call.virt + BitVec.ofNat 64 (i * 4096)) = none := by
  have hrange := place.range.mono hwithin
  constructor
  · intro hsame i hi
    have hentry : (List.replicate call.mapped (none : Option Nat))[i]? = some none := by
      rw [List.getElem?_replicate, if_pos hi]
    have hpage := h.shows.cr3_eq place.root (hrange.user hi)
    rw [hrange.page_eq hi, Pages.fill_inside hentry, hsame _ (hrange.user hi)] at hpage
    exact Option.map_eq_none_iff.mp hpage
  · intro hnone virt huser
    have hshows := h.shows
    rw [Pages.fill_of_eq] at hshows
    · exact sep.shows.translate_eq hshows place.root huser
    · intro i entry hget
      rw [List.getElem?_replicate] at hget
      split at hget
      · rename_i hi
        obtain rfl := Option.some.inj hget
        exact pages_eq_none sep.shows place.root hrange hi (hnone i hi)
      · cases hget

/-- A range in the user half does not begin at `u64::MAX`. -/
theorem Placing.virt_ne (place : Placing roots k call) : call.virt.toNat ≠ failure := by
  have hhigh := place.range.high
  unfold Kernel.failure
  omega

/-- What the call promises when it succeeds, it keeps. -/
theorem Ready.mapsZeroed (h : k.Ready roots others cpu size)
    (hrun : k.sysHeapAlloc others memory cpu size = some run) (hresult : run.result ≠ failure) :
    run.result = k.heapVaBump.toNat ∧ ∃ cr3, k.userCr3 (k.callerPid cpu) = some cr3 ∧
      MapsZeroed k cr3 k.heapVaBump (divCeil size.toNat 4096) run := by
  obtain rfl | ⟨call, hcall, hvirt, hcount, place, hended⟩ := h.ended hrun
  · exact absurd rfl hresult
  cases hended with
  | gaveUp hfailed => exact absurd hfailed hresult
  | @finished hdone k' taken hvm hbuilt =>
    rw [← hvirt]
    refine ⟨hdone, call.cr3, hcall, taken, hbuilt.count.trans hcount, hbuilt.holds.nodup, ?_⟩
    intro i frame hget
    have hmem := List.mem_of_getElem? hget
    have hlength : taken.length = call.size.toNat / 4096 := hbuilt.count
    have hrange := place.range
    rw [← hlength] at hrange
    have htranslate := translate_taken place.root hbuilt.shows hrange hget
    obtain ⟨phys, hphys, rfl⟩ := Option.map_eq_some_iff.mp htranslate
    obtain ⟨-, hlt, hfree⟩ := hbuilt.holds.fresh _ hmem
    refine ⟨?_, hfree.imp_left fun hfree => ⟨hlt, hfree⟩, hbuilt.zeroed _ hmem⟩
    rw [hvm, hphys, BitVec.ofNat_toNat, BitVec.setWidth_eq]

/-- SYS_HEAP_ALLOC and SYS_SHM_MAP map all or nothing, just if no page of the range of a failed
heap call was mapped before. -/
theorem all_or_nothing_iff (h : k.Ready roots others cpu size) (memory : Nat → BitVec 8) (id : Nat) :
    AllOrNothing k others memory cpu size id ↔ ¬k.UndoesMapped others memory cpu size := by
  obtain ⟨level, sep⟩ := h.separated
  constructor
  · rintro whole ⟨run, cr3, hrun, hfailed, hspace, i, hi, hmapped⟩
    obtain rfl | ⟨call, hcall, hvirt, hcount, place, hended⟩ := h.ended hrun
    · cases hi
    have hsame := (whole.heapFailed run hrun hfailed).pages call.cr3 hcall
    obtain rfl : cr3 = call.cr3 := Option.some.inj (hspace.symm.trans hcall)
    rw [← hvirt] at hmapped
    cases hended with
    | finished hresult => exact place.virt_ne (hresult.symm.trans hfailed)
    | gaveUp hresult hwithin hup =>
      exact hmapped ((hup.same_iff sep (place.later _) hwithin).mp hsame i hi)
  · intro hnot
    refine ⟨?_, fun run => h.mapsZeroed, unseen_map sep h.active id⟩
    intro run hrun hfailed
    obtain rfl | ⟨call, hcall, hvirt, hcount, place, hended⟩ := h.ended hrun
    · exact .refl _ _
    cases hended with
    | finished hresult => exact absurd (hresult.symm.trans hfailed) place.virt_ne
    | gaveUp hresult hwithin hup =>
      refine ⟨?_, hup.frames, hup.records⟩
      intro cr3 hcr3
      obtain rfl : call.cr3 = cr3 := Option.some.inj (hcall.symm.trans hcr3)
      refine (hup.same_iff sep (place.later _) hwithin).mpr fun i hi => ?_
      by_contra hmapped
      exact hnot ⟨run, call.cr3, hrun, hfailed, hcall, i, hi, hvirt ▸ hmapped⟩

end Calls

/-- Process 1 has nothing mapped, and two frames are free. -/
def twoFrames : MemoryKernel :=
  { onePageHeap with
    vm := smallSpaces.vm
    pmm := ⟨[0x3f], 8, 8, 0⟩
    heapAllocs := []
    activeCr3 := fun _ => 0x2000 }

/-- It asks for three pages. The call maps two of them and gives up. -/
theorem all_or_nothing_iff_threePages :
    (twoFrames.sysHeapAlloc [[], [], []] (fun _ => 1) 0 0x3000).map (·.result) =
        some Kernel.failure ∧
      AllOrNothing twoFrames [[], [], []] (fun _ => 1) 0 0x3000 1 := by
  obtain ⟨level, sep⟩ := smallSpaces_separated
  have hspace : twoFrames.userCr3 (twoFrames.callerPid 0) = some 0x2000 := by decide
  have hready : twoFrames.Ready smallSpaces.roots [[], [], []] 0 0x3000 := by
    refine ⟨⟨level, sep⟩, ?_, by decide, rfl, by decide, fun _ => ⟨by decide, by decide⟩,
      nofun, List.nodup_nil⟩
    intro cr3 hcr3
    rw [← Option.some.inj (hspace.symm.trans hcr3)]
    decide
  refine ⟨by decide +kernel, (all_or_nothing_iff hready _ 1).mpr ?_⟩
  rintro ⟨run, cr3, hrun, -, hcr3, i, hi, hmapped⟩
  have htwo : (twoFrames.sysHeapAlloc [[], [], []] (fun _ => 1) 0 0x3000).map (·.mapped) = some 2 := by
    decide +kernel
  rw [hrun] at htwo
  have hcount : run.mapped = 2 := Option.some.inj htwo
  rw [hcount] at hi
  obtain rfl : 0x2000 = cr3 := Option.some.inj (hspace.symm.trans hcr3)
  have hrange : UserRange heapVaBase 2 := ⟨by decide, by decide⟩
  exact hmapped (smallSpaces_empty 0x2000 (by decide) _ (hrange.user hi))

/-- The heap has grown into the range of device registers, where the caller has a page. A call that
fails behind it unmaps the registers. -/
theorem failed_heap_call_unmaps_registers :
    let k : MemoryKernel := { twoFrames with
      vm := (smallSpaces.vm.mapPage 0x2000 pciMmioVaBase 0xfeb00000 .userMmio).2
      heapVaBump := pciMmioVaBase
      pciMmioAllocs := [⟨1, pciMmioVaBase, 4096⟩] }
    k.vm.translate 0x2000 pciMmioVaBase = some 0xfeb00000 ∧
      (k.sysHeapAlloc [[], [], []] (fun _ => 0) 0 0x3000).map
          (fun run => (run.result, run.kernel.vm.translate 0x2000 pciMmioVaBase)) =
        some (Kernel.failure, none) := by
  decide +kernel

end KazuOS.MemoryKernel
