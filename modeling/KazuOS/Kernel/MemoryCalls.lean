import KazuOS.Kernel.Framebuffer
import KazuOS.Kernel.ShmRanges
import KazuOS.Kernel.UserMemory

/-! Calls for memory that fail. What each may leave behind, and when it does. -/
namespace KazuOS.MemoryKernel

open KazuOS.Kernel KazuOS.Lib KazuOS.Memory KazuOS.Memory.AddressSpaces KazuOS.Task

/-! Giving memory back. The record goes before the address space is looked up, and that is
found through the main thread. -/

/-- Records, frames, the kernel heap and page tables are as they were. -/
structure Untouched (k k' : MemoryKernel) : Prop where
  heapAllocs : k'.heapAllocs = k.heapAllocs
  dmaAllocs : k'.dmaAllocs = k.dmaAllocs
  pmm : k'.pmm = k.pmm
  buffers : k'.freedBuffers = k.freedBuffers
  vm : k'.vm = k.vm

theorem Untouched.refl (k : MemoryKernel) : Untouched k k := ⟨rfl, rfl, rfl, rfl, rfl⟩

/-- The record of a heap range is gone, its pages are unmapped and no others, and the frames
that were behind them are free. -/
structure HeapReleased (roots : List (BitVec 64)) (k k' : MemoryKernel) (a : HeapAlloc)
    (cr3 : BitVec 64) : Prop where
  records : k.heapAllocs.Perm (a :: k'.heapAllocs)
  pages : Clears roots cr3 (pagesFrom a.virt (a.size / 4096)) k.vm k'.vm
  frames : Frees (fun frame => ∃ v ∈ pagesFrom a.virt (a.size / 4096),
    frameAt k.vm cr3 v = some frame) k.pmm k'.pmm

structure DmaReleased (roots : List (BitVec 64)) (k k' : MemoryKernel) (a : DmaAlloc)
    (cr3 : BitVec 64) : Prop where
  records : k.dmaAllocs.Perm (a :: k'.dmaAllocs)
  pages : Clears roots cr3 (pagesFrom a.virt (divCeil a.size 4096)) k.vm k'.vm
  buffer : k'.freedBuffers = a.phys :: k.freedBuffers

/-- What SYS_HEAP_FREE and SYS_DMA_FREE of an address promise. -/
structure FreesWhole (roots : List (BitVec 64)) (k : MemoryKernel) (cpu : Nat) (virt : BitVec 64) :
    Prop where
  heapFailed : (k.heapFree cpu virt).1 = failure → Untouched k (k.heapFree cpu virt).2
  heapFreed : (k.heapFree cpu virt).1 = 0 → ∃ a cr3, a.virt = virt ∧ a.pid = k.callerPid cpu ∧
    k.userCr3 a.pid = some cr3 ∧ HeapReleased roots k (k.heapFree cpu virt).2 a cr3
  dmaFailed : (k.dmaFree cpu virt).1 = failure → Untouched k (k.dmaFree cpu virt).2
  dmaFreed : (k.dmaFree cpu virt).1 = 0 → ∃ a cr3, a.virt = virt ∧ a.pid = k.callerPid cpu ∧
    k.userCr3 a.pid = some cr3 ∧ DmaReleased roots k (k.dmaFree cpu virt).2 a cr3

/-- There is a record for the call, but the main thread of the caller has exited. -/
def Stranded (k : MemoryKernel) (cpu : Nat) (virt : BitVec 64) : Prop :=
  virt ≠ 0 ∧ k.userCr3 (k.callerPid cpu) = none ∧
    ((k.tasks.currentUserPid cpu ≠ none ∧
        ∃ a ∈ k.heapAllocs, a.virt = virt ∧ a.pid = k.callerPid cpu) ∨
      ∃ a ∈ k.dmaAllocs, a.virt = virt ∧ a.pid = k.callerPid cpu)

theorem failure_ne_zero : failure ≠ 0 := by decide

/-- Address spaces that are apart, and records of user pages. -/
structure Placed (k : MemoryKernel) (roots : List (BitVec 64)) (cpu : Nat) : Prop where
  separated : ∃ level, Separated k.vm roots level
  space : ∀ cr3, k.userCr3 (k.callerPid cpu) = some cr3 → cr3 &&& addrMask ∈ roots
  heap : ∀ a ∈ k.heapAllocs, ∀ v ∈ pagesFrom a.virt (a.size / 4096), UserAddress v
  dma : ∀ a ∈ k.dmaAllocs, ∀ v ∈ pagesFrom a.virt (divCeil a.size 4096), UserAddress v
  sized : k.pmm.Sized

theorem foldl_freeUserPage_vm (cr3 : BitVec 64) (pages : List (BitVec 64)) (pmm : Pmm) (vm : Vmm) :
    (pages.foldl (freeUserPage cr3) (pmm, vm)).2 = pages.foldl (fun vm v => vm.unmapPage cr3 v) vm := by
  induction pages generalizing pmm vm with
  | nil => rfl
  | cons v rest ih => exact ih _ _

section Free

variable {k : MemoryKernel} {roots : List (BitVec 64)} {cpu : Nat} {virt : BitVec 64}

theorem callerPid_of_current {caller : Nat} (h : k.tasks.currentUserPid cpu = some caller) :
    k.callerPid cpu = caller := by
  rw [callerPid, h]
  rfl

/-- How a call that frees by record ends. The record goes before the address space is looked up. -/
inductive FreeEnds (records : MemoryKernel → List α) (wanted : α → Prop)
    (after : α → BitVec 64 → MemoryKernel → Prop) (k : MemoryKernel) (pid : Nat) :
    Nat × MemoryKernel → Prop where
  | missing : (∀ a ∈ records k, ¬wanted a) → FreeEnds records wanted after k pid (failure, k)
  | stranded {a : α} {k' : MemoryKernel} : wanted a → (records k).Perm (a :: records k') →
      k.userCr3 pid = none → FreeEnds records wanted after k pid (failure, k')
  | freed {a : α} {cr3 : BitVec 64} {k' : MemoryKernel} : wanted a →
      (records k).Perm (a :: records k') → k.userCr3 pid = some cr3 → after a cr3 k' →
      FreeEnds records wanted after k pid (0, k')

namespace FreeEnds

variable {records : MemoryKernel → List α} {wanted : α → Prop}
  {after : α → BitVec 64 → MemoryKernel → Prop} {pid : Nat} {result : Nat × MemoryKernel}

theorem failed_iff (h : FreeEnds records wanted after k pid result)
    (hsame : ∀ {k'}, Untouched k k' → records k' = records k) :
    (result.1 = failure → Untouched k result.2) ↔
      ¬(k.userCr3 pid = none ∧ ∃ a ∈ records k, wanted a) := by
  cases h with
  | missing hnone =>
    exact iff_of_true (fun _ => .refl k) fun ⟨_, a, ha, hwanted⟩ => hnone a ha hwanted
  | stranded hwanted hperm hspace =>
    refine iff_of_false (fun h => perm_cons_ne hperm (hsame (h rfl))) fun h => h ?_
    exact ⟨hspace, _, hperm.mem_iff.mpr List.mem_cons_self, hwanted⟩
  | freed _ _ hspace =>
    refine iff_of_true (fun h => absurd h.symm failure_ne_zero) fun h => ?_
    cases hspace.symm.trans h.1

theorem of_zero (h : FreeEnds records wanted after k pid result) (hzero : result.1 = 0) :
    ∃ a cr3, wanted a ∧ (records k).Perm (a :: records result.2) ∧ k.userCr3 pid = some cr3 ∧
      after a cr3 result.2 := by
  cases h with
  | missing | stranded => exact absurd hzero failure_ne_zero
  | freed hwanted hperm hspace hafter => exact ⟨_, _, hwanted, hperm, hspace, hafter⟩

end FreeEnds

/-- Looking for the record of a caller and an address. -/
theorem takeFirst_mine {α : Type*} {virtOf : α → BitVec 64} {pidOf : α → Nat} {virt : BitVec 64}
    {pid : Nat} {records : List α} :
    (takeFirst (fun a => virtOf a = virt && pidOf a = pid) records = none →
      ∀ a ∈ records, ¬(virtOf a = virt ∧ pidOf a = pid)) ∧
    ∀ a rest, takeFirst (fun a => virtOf a = virt && pidOf a = pid) records = some (a, rest) →
      (virtOf a = virt ∧ pidOf a = pid) ∧ records.Perm (a :: rest) := by
  constructor
  · intro htake a ha h
    have hnot := takeFirst_eq_none_iff.mp htake a ha
    simp [h.1, h.2] at hnot
  · intro a rest htake
    obtain ⟨hmatch, hperm⟩ := perm_takeFirst htake
    rw [Bool.and_eq_true, decide_eq_true_eq, decide_eq_true_eq] at hmatch
    exact ⟨hmatch, hperm⟩

theorem heapFree_ends (k : MemoryKernel) (cpu : Nat) (virt : BitVec 64) :
    FreeEnds (fun k => k.heapAllocs) (fun a => (virt ≠ 0 ∧ k.tasks.currentUserPid cpu ≠ none) ∧
        a.virt = virt ∧ a.pid = k.callerPid cpu)
      (fun a cr3 k' => (k'.pmm, k'.vm) =
        (pagesFrom a.virt (a.size / 4096)).foldl (freeUserPage cr3) (k.pmm, k.vm))
      k (k.callerPid cpu) (k.heapFree cpu virt) := by
  unfold heapFree
  split
  · rename_i hzero
    exact .missing fun a _ h => h.1.1 hzero
  rename_i hne
  split
  · rename_i hnone
    exact .missing fun a _ h => h.1.2 hnone
  rename_i caller hcaller
  have hcurrent : k.tasks.currentUserPid cpu ≠ none := by
    rw [hcaller]
    exact Option.some_ne_none caller
  simp only [callerPid_of_current hcaller]
  split
  · rename_i htake
    exact .missing fun a ha h => takeFirst_mine.1 htake a ha h.2
  · rename_i a rest htake
    obtain ⟨hmatch, hperm⟩ := takeFirst_mine.2 a rest htake
    split
    · exact .stranded ⟨⟨hne, hcurrent⟩, hmatch⟩ hperm ‹_›
    · refine .freed ⟨⟨hne, hcurrent⟩, hmatch⟩ hperm ‹_› ?_
      rw [← freeUserPages_eq]
      rfl

theorem dmaFree_ends (k : MemoryKernel) (cpu : Nat) (virt : BitVec 64) :
    FreeEnds (fun k => k.dmaAllocs)
      (fun a => virt ≠ 0 ∧ a.virt = virt ∧ a.pid = k.callerPid cpu)
      (fun a cr3 k' => k'.vm = unmapRange k.vm cr3 a.virt a.size ∧
        k'.freedBuffers = a.phys :: k.freedBuffers)
      k (k.callerPid cpu) (k.dmaFree cpu virt) := by
  unfold dmaFree
  split
  · rename_i hzero
    exact .missing fun a _ h => h.1 hzero
  rename_i hne
  dsimp only
  split
  · rename_i htake
    exact .missing fun a ha h => takeFirst_mine.1 htake a ha h.2
  · rename_i a rest htake
    obtain ⟨hmatch, hperm⟩ := takeFirst_mine.2 a rest htake
    split
    · exact .stranded ⟨hne, hmatch⟩ hperm ‹_›
    · exact .freed ⟨hne, hmatch⟩ hperm ‹_› ⟨rfl, rfl⟩

/-- A failed call leaves everything as it was unless the main thread of the caller has exited
and there is a record; one that succeeds gives back what the record stands for. -/
theorem frees_whole_iff (h : k.Placed roots cpu) (virt : BitVec 64) :
    FreesWhole roots k cpu virt ↔ ¬k.Stranded cpu virt := by
  obtain ⟨level, sep⟩ := h.separated
  have hheap := heapFree_ends k cpu virt
  have hdma := dmaFree_ends k cpu virt
  have hheapFailed := hheap.failed_iff (·.heapAllocs)
  have hdmaFailed := hdma.failed_iff (·.dmaAllocs)
  constructor
  · rintro whole ⟨hne, hspace, ⟨hcurrent, a, ha, hmine⟩ | ⟨a, ha, hmine⟩⟩
    · exact hheapFailed.mp whole.heapFailed ⟨hspace, a, ha, ⟨hne, hcurrent⟩, hmine⟩
    · exact hdmaFailed.mp whole.dmaFailed ⟨hspace, a, ha, hne, hmine⟩
  · intro hnot
    refine ⟨hheapFailed.mpr ?_, fun hzero => ?_, hdmaFailed.mpr ?_, fun hzero => ?_⟩
    · rintro ⟨hspace, a, ha, ⟨hne, hcurrent⟩, hmine⟩
      exact hnot ⟨hne, hspace, .inl ⟨hcurrent, a, ha, hmine⟩⟩
    · obtain ⟨a, cr3, ⟨-, hvirt, hpid⟩, hperm, hspace, hloop⟩ := hheap.of_zero hzero
      have huser := h.heap a (hperm.mem_iff.mpr List.mem_cons_self)
      have hroot := h.space cr3 hspace
      have hfrees := frees_freeUserPages sep hroot huser h.sized
      have hclears := clears_foldl sep hroot huser
      rw [← foldl_freeUserPage_vm cr3 _ k.pmm, ← hloop] at hclears
      rw [← hloop] at hfrees
      exact ⟨a, cr3, hvirt, hpid, hpid ▸ hspace, hperm, hclears, hfrees⟩
    · rintro ⟨hspace, a, ha, hne, hmine⟩
      exact hnot ⟨hne, hspace, .inr ⟨a, ha, hmine⟩⟩
    · obtain ⟨a, cr3, ⟨-, hvirt, hpid⟩, hperm, hspace, hvm, hbuffers⟩ := hdma.of_zero hzero
      have hclears := clears_foldl sep (h.space cr3 hspace)
        (h.dma a (hperm.mem_iff.mpr List.mem_cons_self))
      rw [← unmapRange_eq, ← hvm] at hclears
      exact ⟨a, cr3, hvirt, hpid, hpid ▸ hspace, hperm, hclears, hbuffers⟩

end Free

/-- Process 1 with a page of heap. -/
def onePageHeap : MemoryKernel :=
  { ownsMemory with
    nextShmId := 1
    dmaVaBump := dmaVaBase
    heapVaBump := heapVaBase
    pciMmioVaBump := pciMmioVaBase }

theorem onePageHeap_placed : onePageHeap.Placed smallSpaces.roots 0 := by
  obtain ⟨level, sep⟩ := smallSpaces_separated
  have hmaps := mapPage_maps sep (by decide : (0x2000 : BitVec 64) &&& addrMask ∈ smallSpaces.roots)
    (by decide : UserAddress 0x8000000000) 0x7000 .userReadWrite
  refine ⟨hmaps.separated, ?_, ?_, nofun, rfl⟩
  · rintro cr3 hspace
    rw [← Option.some.inj hspace]
    decide
  · intro a ha v hv
    obtain rfl := List.mem_singleton.mp ha
    rw [List.mem_singleton.mp hv]
    decide

theorem frees_whole_iff_onePage : FreesWhole smallSpaces.roots onePageHeap 0 0x8000000000 := by
  refine (frees_whole_iff onePageHeap_placed 0x8000000000).mpr ?_
  rintro ⟨-, hspace, -⟩
  cases hspace

/-- The worker of a process whose main thread has exited frees the page: the call fails, and
the record is gone. -/
theorem failed_free_drops_record :
    let k : MemoryKernel := { onePageHeap with
      tasks := { onePageHeap.tasks with threads := onePageHeap.tasks.threads.drop 1 } }
    (k.heapFree 0 0x8000000000).1 = Kernel.failure ∧ k.heapAllocs ≠ [] ∧
      (k.heapFree 0 0x8000000000).2.heapAllocs = [] := by
  decide

/-! Running out of frames. -/

/-- Who is told to die while a call of `sys_heap_alloc` waits for a frame, in so many rounds of
its loop. -/
def victims : Nat → MemoryKernel → HeapCall → List Nat
  | 0, _, _ => []
  | rounds + 1, k, call =>
      match oomVictim k.tasks 0, k.heapTurn call with
      | some victim, (.again call, k) => victim :: victims rounds k call
      | _, _ => []

/-- Nobody is told twice, so the rounds are no more than there are user processes. -/
structure Progresses (k : MemoryKernel) (call : HeapCall) : Prop where
  once : ∀ rounds, (victims rounds k call).Nodup
  ends : ∀ rounds, (victims rounds k call).length ≤
    k.tasks.processes.countP fun p => p.privilege = .user

/-- What the search for a victim reads of a process. It does not read the mark. -/
def unmarked (p : Process) : Process := { p with killPending := false }

/-- The body of the loop of `oom_victim`. -/
def larger (best : Option Process) (p : Process) : Option Process :=
  match best with
  | none => some p
  | some b => if b.memoryBytes < p.memoryBytes then some p else some b

theorem foldl_larger_unmarked (processes : List Process) (best : Option Process) :
    (processes.map unmarked).foldl larger (best.map unmarked) =
      (processes.foldl larger best).map unmarked := by
  induction processes generalizing best with
  | nil => rfl
  | cons p rest ih =>
    have hstep : larger (best.map unmarked) (unmarked p) = (larger best p).map unmarked := by
      cases best with
      | none => rfl
      | some b =>
        simp only [larger, Option.map_some]
        rw [apply_ite (Option.map unmarked)]
        rfl
    rw [List.map_cons, List.foldl_cons, List.foldl_cons, hstep]
    exact ih _

theorem oomVictim_eq (ts : Tasks) (exclude : Nat) :
    oomVictim ts exclude = oomVictim { ts with processes := ts.processes.map unmarked } exclude := by
  unfold oomVictim
  dsimp only
  rw [List.filter_map]
  have hfold := foldl_larger_unmarked (ts.processes.filter fun p =>
    p.pid ≠ 0 && p.pid ≠ exclude && !p.privilege.isDriver && p.state ∉ [.empty, .exited]) none
  rw [Option.map_none] at hfold
  refine Eq.trans ?_ (congrArg (Option.map Process.pid) hfold).symm
  rw [Option.map_map]
  rfl

theorem unmarked_killPid (ts : Tasks) (pid : Nat) :
    (ts.killPid pid).processes.map unmarked = ts.processes.map unmarked := by
  have hmark : (ts.setKillPending pid).processes.map unmarked = ts.processes.map unmarked := by
    unfold Tasks.setKillPending Tasks.updateProcess
    apply map_key_modifyFirst unmarked
    exact fun _ => rfl
  unfold Tasks.killPid
  split
  · rfl
  · split
    · rfl
    · split
      · rfl
      · rw [← hmark]
        unfold Tasks.onMain
        split <;> rfl

/-- The mark makes no difference: the victim of one round is that of the next. -/
theorem oomVictim_killPid (ts : Tasks) (pid exclude : Nat) :
    oomVictim (ts.killPid pid) exclude = oomVictim ts exclude := by
  rw [oomVictim_eq, unmarked_killPid, oomVictim_eq ts]
  rfl

section Oom

variable {k : MemoryKernel} {call : HeapCall}

theorem allocFrame_of_none {pmm : Pmm} (h : pmm.allocFrame.1 = none) :
    pmm.allocFrame = (none, pmm) := by
  unfold Pmm.allocFrame at h ⊢
  dsimp only at h ⊢
  split at h
  · cases h
  · rfl

theorem heapTurn_without_frame (hframe : k.pmm.allocFrame.1 = none)
    (hmore : call.mapped ≠ call.size.toNat / 4096) :
    ((oomKill k.tasks call.caller).1 = true → ∃ k', k.heapTurn call = (.again call, k') ∧
      k'.pmm = k.pmm ∧ k'.tasks = (oomKill k.tasks call.caller).2) ∧
    ((oomKill k.tasks call.caller).1 = false → ∃ k', k.heapTurn call = (.done failure, k')) := by
  unfold heapTurn
  rw [if_neg hmore]
  simp only [allocFrame_of_none hframe]
  constructor
  · intro hkilled
    simp only [hkilled, if_true]
    exact ⟨_, rfl, rfl, rfl⟩
  · intro hkilled
    simp only [hkilled, Bool.false_eq_true, if_false]
    exact ⟨_, rfl⟩

theorem oomKill_eq (ts : Tasks) (caller : Nat) :
    (oomKill ts caller).1 = true ↔ ∃ victim, oomVictim ts 0 = some victim ∧ victim ≠ caller := by
  unfold oomKill
  cases oomVictim ts 0 with
  | none => simp
  | some victim =>
    dsimp only
    split <;> simp_all

/-- While no frame becomes free, the same process is told to die in every round. -/
theorem victims_eq_replicate (hframe : k.pmm.allocFrame.1 = none)
    (hmore : call.mapped ≠ call.size.toNat / 4096) {victim : Nat}
    (hvictim : oomVictim k.tasks 0 = some victim) (hother : victim ≠ call.caller) (rounds : Nat) :
    victims rounds k call = List.replicate rounds victim := by
  induction rounds generalizing k with
  | zero => rfl
  | succ rounds ih =>
    obtain ⟨k', hturn, hpmm, htasks⟩ := (heapTurn_without_frame hframe hmore).1
      ((oomKill_eq _ _).mpr ⟨victim, hvictim, hother⟩)
    have hkill : k'.tasks = k.tasks.killPid victim := by
      rw [htasks, oomKill, hvictim]
      simp only [hother, ne_eq, not_false_eq_true, if_true]
    have hnext : oomVictim k'.tasks 0 = some victim := by
      rw [hkill, oomVictim_killPid]
      exact hvictim
    rw [victims, hvictim, hturn, List.replicate_succ]
    exact congrArg (victim :: ·) (ih (hpmm ▸ hframe) hnext)

/-- Without a free frame the loop makes progress just if there is nobody to be told. -/
theorem oom_progresses_iff (hframe : k.pmm.allocFrame.1 = none)
    (hmore : call.mapped ≠ call.size.toNat / 4096) :
    Progresses k call ↔ (oomKill k.tasks call.caller).1 = false := by
  constructor
  · intro h
    rw [← Bool.not_eq_true, oomKill_eq]
    rintro ⟨victim, hvictim, hother⟩
    have htwice := h.once 2
    rw [victims_eq_replicate hframe hmore hvictim hother] at htwice
    simp [List.replicate] at htwice
  · intro hkilled
    have hnobody : ∀ rounds, victims rounds k call = [] := by
      intro rounds
      cases rounds with
      | zero => rfl
      | succ rounds =>
        obtain ⟨k', hturn⟩ := (heapTurn_without_frame hframe hmore).2 hkilled
        rw [victims, hturn]
        split
        · rename_i hagain
          cases hagain
        · rfl
    refine ⟨fun rounds => ?_, fun rounds => ?_⟩
    · rw [hnobody]
      exact List.nodup_nil
    · rw [hnobody]
      exact Nat.zero_le _

end Oom

/-- Process 1 asks for a page on a machine without a free frame. -/
def starved : MemoryKernel := { onePageHeap with pmm := ⟨[255], 8, 2, 0⟩ }

def starvedCall : HeapCall := ⟨0, 1, 0x2000, heapVaBase, 4096, 0⟩

/-- It is the only process. -/
theorem oom_progresses_iff_alone : Progresses starved starvedCall :=
  (oom_progresses_iff (by decide) (by decide)).mpr (by decide)

/-- With a second process the call tells that one to die, and tells it again. -/
theorem victim_is_told_twice :
    victims 2 { starved with tasks := { starved.tasks with
      processes := starved.tasks.processes ++ [{ kernelProcess with
        pid := 2, state := .sleeping, privilege := .user, memoryBytes := 65536 }] } } starvedCall =
      [2, 2] := by
  decide

/-! DMA buffers. When mapping one fails behind its first page, what was mapped stays mapped, and
the buffer goes back to the kernel heap. -/

/-- A user page, one of those in `P`, leads to a page of a buffer. -/
def Exposes (vm : Vmm) (cr3 phys : BitVec 64) (count : Nat) (P : Nat → Prop) : Prop :=
  ∃ virt i, UserAddress virt ∧ P (page virt) ∧ i < count ∧
    vm.translate cr3 virt = some ((phys + BitVec.ofNat 64 (i * 4096)) &&& addrMask)

def dmaPages (size : BitVec 64) : Nat := divCeil (pageAligned size).toNat 4096

/-- If SYS_DMA_ALLOC fails and gives a buffer back, the caller has no way to it. -/
def KeepsApart (k : MemoryKernel) (cpu : Nat) (size phys : BitVec 64) (physOut : Nat) : Prop :=
  (k.dmaAlloc cpu size phys physOut).1 = failure →
    (k.dmaAlloc cpu size phys physOut).2.freedBuffers ≠ k.freedBuffers →
    ∀ cr3, k.userCr3 (k.callerPid cpu) = some cr3 →
      ¬Exposes (k.dmaAlloc cpu size phys physOut).2.vm cr3 phys (dmaPages size) fun _ => True

/-- Mapping the buffer fails, and not at its first page; or the address cannot be written.
The buffer may also have been exposed before the call, at pages that this does not unmap. -/
def LeavesExposed (k : MemoryKernel) (cpu : Nat) (size phys : BitVec 64) (physOut : Nat) : Prop :=
  (k.tasks.privilegeLevel (k.callerPid cpu)).isDriver = true ∧
    ¬(size = 0 ∨ maxAllocSize < size.toNat) ∧ phys ≠ 0 ∧
    ∃ cr3, k.userCr3 (k.callerPid cpu) = some cr3 ∧
      match k.vm.mapRange cr3 k.dmaVaBump phys (pageAligned size).toNat .userReadWrite with
      | (.error _, _) =>
          (k.vm.mapPage cr3 k.dmaVaBump phys .userReadWrite).1 = .ok () ∨
            Exposes k.vm cr3 phys (dmaPages size) fun _ => True
      | (.ok (), vm) =>
          (physOut ≠ 0 ∧ !{ k with vm }.validateRange cpu physOut 8 true) ∧
            Exposes k.vm cr3 phys (dmaPages size) fun n =>
              ¬(k.dmaVaBump.toNat / 4096 ≤ n ∧ n < k.dmaVaBump.toNat / 4096 + dmaPages size)

section Dma

variable {roots : List (BitVec 64)} {vm : Vmm} {pages : Pages} {cr3 virt phys : BitVec 64}

theorem exposes_iff (h : Shows roots vm pages) (hroot : cr3 &&& addrMask ∈ roots) {count : Nat}
    {P : Nat → Prop} : Exposes vm cr3 phys count P ↔ ∃ n frame, UserPage n ∧ P n ∧
      frame ∈ framesFrom phys count ∧ pages (cr3 &&& addrMask) n = some frame := by
  simp only [framesFrom, List.mem_map, List.mem_range]
  constructor
  · rintro ⟨virt, i, huser, hP, hi, hphys⟩
    have hpage := h.cr3_eq hroot huser
    rw [hphys] at hpage
    exact ⟨page virt, _, (userAddress_iff virt).mp huser, hP, ⟨i, hi, rfl⟩, hpage.symm⟩
  · rintro ⟨n, frame, hn, hP, ⟨i, hi, rfl⟩, hpage⟩
    obtain ⟨virt, huser, rfl, hat⟩ := h.at_page hroot hn
    rw [hpage, translate_mask] at hat
    obtain ⟨phys', hphys, heq⟩ := Option.map_eq_some_iff.mp hat
    rw [BitVec.eq_of_toNat_eq heq] at hphys
    exact ⟨virt, i, huser, hP, hi, hphys⟩

variable {flags : MapFlags} {size : Nat} {vm' : Vmm}

/-- `map_range` does not take back what it mapped before an error. -/
theorem exposes_of_error (h : Shows roots vm pages) (hroot : cr3 &&& addrMask ∈ roots)
    (hrange : UserRange virt (divCeil size 4096)) {e : MapError}
    (herror : vm.mapRange cr3 virt phys size flags = (.error e, vm')) :
    (Exposes vm' cr3 phys (divCeil size 4096) fun _ => True) ↔
      (vm.mapPage cr3 virt phys flags).1 = .ok () ∨
        Exposes vm cr3 phys (divCeil size 4096) fun _ => True := by
  unfold Vmm.mapRange at herror
  generalize divCeil size 4096 = count at hrange herror ⊢
  cases count with
  | zero => cases herror
  | succ rest =>
    have hfirst := h.mapPage hroot (hrange.user (Nat.succ_pos rest)) phys flags
    rw [hrange.page_eq (Nat.succ_pos rest)] at hfirst
    simp only [Nat.zero_mul, BitVec.add_zero, Nat.add_zero] at hfirst
    rw [Vmm.mapPages, zero_mul, add_zero, add_zero] at herror
    generalize vm.mapPage cr3 virt phys flags = result at hfirst herror ⊢
    obtain ⟨answer, vm₁⟩ := result
    cases answer with
    | error e =>
      cases herror
      rw [exposes_iff hfirst hroot, exposes_iff h hroot]
      simp
    | ok =>
      dsimp only at hfirst herror
      refine iff_of_true ?_ (.inl rfl)
      have hone : (framesFrom phys 1).map some = [some (phys &&& addrMask).toNat] := by
        simp only [framesFrom, List.range_one, List.map_cons, List.map_nil, Nat.zero_mul,
          BitVec.add_zero]
      rw [← hone] at hfirst
      obtain ⟨count, hle, -, hshows, -⟩ :=
        shows_mapPages hroot phys flags (by rwa [Nat.add_comm]) hfirst
      have hvm := congrArg Prod.snd herror
      rw [show (0 : BitVec 64) + 1 = BitVec.ofNat 64 1 by decide] at hvm
      rw [hvm] at hshows
      refine (exposes_iff hshows hroot).mpr ⟨virt.toNat / 4096, (phys &&& addrMask).toNat, ?_,
        trivial, ?_, ?_⟩
      · exact hrange.userPage (Nat.succ_pos rest)
      · exact List.mem_map.mpr ⟨0, List.mem_range.mpr (Nat.succ_pos rest), by simp⟩
      · apply Pages.fill_inside (i := 0)
        obtain ⟨count, rfl⟩ := Nat.exists_eq_add_of_le' hle
        rw [List.getElem?_map, framesFrom, List.range_succ_eq_map, List.map_cons, Nat.zero_mul,
          BitVec.add_zero]
        rfl

/-- Unmapping the range again leaves the pages outside of it. -/
theorem exposes_of_unmapped (h : Shows roots vm pages) (hroot : cr3 &&& addrMask ∈ roots)
    (hrange : UserRange virt (divCeil size 4096))
    (hok : vm.mapRange cr3 virt phys size flags = (.ok (), vm')) :
    (Exposes (unmapRange vm' cr3 virt size) cr3 phys (divCeil size 4096) fun _ => True) ↔
      Exposes vm cr3 phys (divCeil size 4096) fun n =>
        ¬(virt.toNat / 4096 ≤ n ∧ n < virt.toNat / 4096 + divCeil size 4096) := by
  obtain ⟨count, hbound, hshows, hcount⟩ := shows_mapRange h hroot phys flags hrange
  rw [hok] at hshows
  have hall := (hcount _ (Nat.le_refl _)).mp (congrArg Prod.fst hok)
  obtain rfl : count = divCeil size 4096 := by omega
  have hback := shows_unmapPages hshows hroot hrange
  rw [Pages.fill_fill (by simp)] at hback
  unfold unmapRange
  rw [exposes_iff hback hroot, exposes_iff h hroot]
  constructor
  · rintro ⟨n, frame, hn, -, hframe, hpage⟩
    obtain ⟨hold, hout⟩ := Pages.fill_none_eq hpage
    exact ⟨n, frame, hn, fun hin => hout ⟨rfl, hin⟩, hframe, hold⟩
  · rintro ⟨n, frame, hn, hout, hframe, hpage⟩
    refine ⟨n, frame, hn, trivial, hframe, ?_⟩
    rw [Pages.fill_outside]
    · exact hpage
    · rw [List.length_replicate]
      exact fun hin => hout hin.2

/-- A failed call leaves its buffer exposed just if mapping it got past the first page, or the
buffer was exposed already. -/
theorem dma_keeps_apart_iff {k : MemoryKernel} {cpu : Nat} {level : BitVec 64 → Nat}
    (sep : Separated k.vm roots level)
    (hroot : ∀ cr3, k.userCr3 (k.callerPid cpu) = some cr3 → cr3 &&& addrMask ∈ roots)
    {size : BitVec 64} (hrange : UserRange k.dmaVaBump (dmaPages size)) (phys : BitVec 64)
    (physOut : Nat) : k.KeepsApart cpu size phys physOut ↔
      ¬k.LeavesExposed cpu size phys physOut := by
  have hunchanged : ∀ {l : List (BitVec 64)}, phys :: l ≠ l := List.cons_ne_self _ _
  unfold KeepsApart LeavesExposed dmaAlloc dmaPages
  dsimp only
  split
  · rename_i hdriver
    refine iff_of_true (fun _ hne => absurd rfl hne) fun h => ?_
    rw [h.1] at hdriver
    cases hdriver
  rename_i hdriver
  rw [Bool.not_eq_true', Bool.not_eq_false] at hdriver
  split
  · rename_i hsize
    exact iff_of_true (fun _ hne => absurd rfl hne) fun h => h.2.1 hsize
  rename_i hsize
  split
  · rename_i hzero
    exact iff_of_true (fun _ hne => absurd rfl hne) fun h => h.2.2.1 hzero
  rename_i hphys
  simp only [hdriver, hsize, hphys, not_false_eq_true, true_and, ne_eq]
  split
  · rename_i hspace
    simp [hspace]
  rename_i cr3 hspace
  have hmem := hroot cr3 hspace
  simp only [hspace, Option.some.injEq, forall_eq', exists_eq_left']
  generalize hmap : k.vm.mapRange cr3 k.dmaVaBump phys (pageAligned size).toNat .userReadWrite = result
  obtain ⟨answer, vm'⟩ := result
  cases answer with
  | error e =>
    dsimp only
    rw [← exposes_of_error sep.shows hmem hrange hmap]
    simp [dealloc, hunchanged]
  | ok =>
    have hexposed := exposes_of_unmapped sep.shows hmem hrange hmap
    dsimp only
    split
    · rename_i hout
      rw [← hexposed]
      simp [dealloc, hunchanged, hout]
    · rename_i hout
      refine iff_of_true (fun _ hne => absurd rfl hne) fun h => hout h.1

end Dma

/-- Process 1 is a driver with nothing mapped. -/
def idleDriver : MemoryKernel :=
  { onePageHeap with
    tasks := { onePageHeap.tasks with
      processes := onePageHeap.tasks.processes.map ({ · with privilege := .driver }) }
    vm := smallSpaces.vm
    heapAllocs := [] }

/-- It asks for two pages, with an address to write to that is not mapped. The call fails. -/
theorem dma_keeps_apart_iff_unwritten :
    (idleDriver.dmaAlloc 0 8192 0x100000 8).1 = Kernel.failure ∧
      idleDriver.KeepsApart 0 8192 0x100000 8 := by
  obtain ⟨level, sep⟩ := smallSpaces_separated
  have hroot : ∀ cr3, idleDriver.userCr3 (idleDriver.callerPid 0) = some cr3 →
      cr3 &&& addrMask ∈ smallSpaces.roots := by
    rintro cr3 hspace
    rw [← Option.some.inj hspace]
    decide
  refine ⟨by decide +kernel, (dma_keeps_apart_iff sep hroot ⟨by decide, by decide⟩ _ _).mpr ?_⟩
  rintro ⟨-, -, -, cr3, hspace, hleft⟩
  obtain rfl := Option.some.inj hspace
  have hok : (idleDriver.vm.mapRange 0x2000 idleDriver.dmaVaBump 0x100000
    (pageAligned 8192).toNat .userReadWrite).1.isOk = true := by decide +kernel
  split at hleft
  · rename_i e vm herror
    have hfails : false = true := by
      rw [← hok]
      exact (congrArg (fun r => r.1.isOk) herror).symm
    cases hfails
  · obtain ⟨-, virt, i, huser, -, -, hphys⟩ := hleft
    have hnone := smallSpaces_empty 0x2000 (by decide) virt huser
    cases hnone.symm.trans hphys

/-- The second page of the buffer would need a page table, and there are no more. The first stays
mapped when the buffer goes back. -/
theorem failed_dma_leaves_page :
    let k : MemoryKernel := { idleDriver with dmaVaBump := dmaVaBase + 0x1ff000 }
    (k.dmaAlloc 0 8192 0x100000 0).1 = Kernel.failure ∧
      (k.dmaAlloc 0 8192 0x100000 0).2.freedBuffers = [0x100000] ∧
      Kernel.userAccessible (k.dmaAlloc 0 8192 0x100000 0).2.vm 0x2000 k.dmaVaBump true = true ∧
      (k.dmaAlloc 0 8192 0x100000 0).2.vm.translate 0x2000 k.dmaVaBump = some 0x100000 := by
  decide +kernel

end KazuOS.MemoryKernel
