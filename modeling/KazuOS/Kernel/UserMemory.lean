import KazuOS.Kernel.Locks
import KazuOS.Kernel.Shm

/-! Memory that user programs ask for: heap pages from the frame allocator and DMA buffers from
the kernel heap. Each kind has a range of addresses of its own, handed out by a bump pointer that
all processes share. -/
namespace KazuOS

open KazuOS.Kernel KazuOS.Memory KazuOS.Task

def dmaVaBase : BitVec 64 := 0x000000A000000000
def heapVaBase : BitVec 64 := 0x000000C000000000
def pciMmioVaBase : BitVec 64 := 0x000000E000000000
def maxAllocSize : Nat := 128 * 1024 * 1024

/-- The kernel with the bump pointers. -/
structure MemoryKernel extends ShmKernel where
  dmaVaBump : BitVec 64
  heapVaBump : BitVec 64
  pciMmioVaBump : BitVec 64

/-- `(size + 4095) & !4095`. -/
def pageAligned (size : BitVec 64) : BitVec 64 := (size + 4095) &&& ~~~4095

/-! Running out of memory. -/

/-- The largest process that may be killed, the first of those of one size. -/
def oomVictim (ts : Tasks) (exclude : Nat) : Option Nat :=
  let candidates := ts.processes.filter fun p =>
    p.pid ≠ 0 && p.pid ≠ exclude && !p.privilege.isDriver && p.state ∉ [.empty, .exited]
  let best := candidates.foldl (fun best p =>
    match best with
    | none => some p
    | some b => if b.memoryBytes < p.memoryBytes then some p else some b) none
  best.map (·.pid)

/-- True if a process other than the caller was told to die. -/
def oomKill (ts : Tasks) (caller : Nat) : Bool × Tasks :=
  match oomVictim ts 0 with
  | some victim => if victim ≠ caller then (true, ts.killPid victim) else (false, ts)
  | none => (false, ts)

/-- A call of `sys_heap_alloc` that has its range and has mapped the first pages of it. -/
structure HeapCall where
  cpu : Nat
  caller : Nat
  cr3 : BitVec 64
  virt : BitVec 64
  size : BitVec 64
  mapped : Nat
  deriving DecidableEq, Repr

inductive HeapTurn where
  | again (call : HeapCall)
  | done (result : Nat)
  deriving DecidableEq, Repr

namespace MemoryKernel

/-! The heap. A call takes a range under the heap lock, maps its pages without a lock, and
enters the range under the lock again. -/

def heapReserve (k : MemoryKernel) (cpu : Nat) (size : BitVec 64) : Option HeapCall × MemoryKernel :=
  if size = 0 ∨ maxAllocSize < size.toNat then (none, k) else
    let aligned := pageAligned size
    match k.tasks.currentUserPid cpu with
    | none => (none, k)
    | some caller =>
        match k.userCr3 caller with
        | none => (none, k)
        | some cr3 =>
            (some ⟨cpu, caller, cr3, k.heapVaBump, aligned, 0⟩,
              { k with heapVaBump := k.heapVaBump + aligned })

/-- A refusal changes nothing. -/
theorem heapReserve_cases (k : MemoryKernel) (cpu : Nat) (size : BitVec 64) :
    k.heapReserve cpu size = (none, k) ∨ ∃ caller cr3, size ≠ 0 ∧ size.toNat ≤ maxAllocSize ∧
      k.tasks.currentUserPid cpu = some caller ∧ k.userCr3 caller = some cr3 ∧
      k.heapReserve cpu size = (some ⟨cpu, caller, cr3, k.heapVaBump, pageAligned size, 0⟩,
        { k with heapVaBump := k.heapVaBump + pageAligned size }) := by
  unfold heapReserve
  split
  · exact .inl rfl
  rename_i hsize
  rw [not_or, Nat.not_lt] at hsize
  dsimp only
  split
  · exact .inl rfl
  rename_i caller hcaller
  split
  · exact .inl rfl
  rename_i cr3 hspace
  exact .inr ⟨caller, cr3, hsize.1, hsize.2, hcaller, hspace, rfl⟩

def freePages (k : MemoryKernel) (cr3 virt : BitVec 64) (pages : Nat) : MemoryKernel :=
  let (pmm, vm) := freeUserPages cr3 (k.pmm, k.vm) virt pages
  { k with pmm, vm }

/-- One round of the loop over the pages, or the last critical section. Without a free frame
the call tells a process to die and comes back for the same page. -/
def heapTurn (k : MemoryKernel) (call : HeapCall) : HeapTurn × MemoryKernel :=
  if call.mapped = call.size.toNat / 4096 then
    (.done call.virt.toNat,
      { k with
        heapAllocs := k.heapAllocs ++ [⟨call.caller, call.virt, call.size.toNat⟩]
        tasks := addMemoryBytes k.tasks call.caller call.size.toNat })
  else
    match k.pmm.allocFrame with
    | (none, pmm) =>
        let (killed, tasks) := oomKill k.tasks call.caller
        let k := { k with toKernel := { k.toKernel with pmm, tasks }.switchCr3 call.cpu call.cr3 }
        if killed then (.again call, k)
        else (.done failure, k.freePages call.cr3 call.virt call.mapped)
    | (some frame, pmm) =>
        match k.vm.mapPage call.cr3 (call.virt + BitVec.ofNat 64 (call.mapped * 4096))
            (BitVec.ofNat 64 frame) .userReadWrite with
        | (.ok (), vm) => (.again { call with mapped := call.mapped + 1 }, { k with pmm, vm })
        | (.error _, vm) =>
            (.done failure, { k with pmm := pmm.freeFrame frame, vm }.freePages call.cr3 call.virt
              call.mapped)

def heapFree (k : MemoryKernel) (cpu : Nat) (virt : BitVec 64) : Nat × MemoryKernel :=
  if virt = 0 then (failure, k) else
    match k.tasks.currentUserPid cpu with
    | none => (failure, k)
    | some caller =>
        match Lib.takeFirst (fun a : HeapAlloc => a.virt = virt && a.pid = caller) k.heapAllocs with
        | none => (failure, k)
        | some (a, heapAllocs) =>
            match k.userCr3 caller with
            | none => (failure, { k with heapAllocs })
            | some cr3 =>
                let k := { k with heapAllocs }.freePages cr3 a.virt (a.size / 4096)
                (0, { k with tasks := subMemoryBytes k.tasks caller a.size })

/-! DMA buffers. What the kernel heap answers comes with the call; 0 is a refusal. -/

def dealloc (k : MemoryKernel) (phys : BitVec 64) : MemoryKernel :=
  { k with freedBuffers := phys :: k.freedBuffers }

def dmaAlloc (k : MemoryKernel) (cpu : Nat) (size phys : BitVec 64) (physOut : Nat) :
    Nat × MemoryKernel :=
  let caller := k.callerPid cpu
  if !(k.tasks.privilegeLevel caller).isDriver then (failure, k)
  else if size = 0 ∨ maxAllocSize < size.toNat then (failure, k)
  else if phys = 0 then (failure, k)
  else
    let aligned := pageAligned size
    match k.userCr3 caller with
    | none => (failure, k.dealloc phys)
    | some cr3 =>
        let virt := k.dmaVaBump
        let k := { k with dmaVaBump := virt + aligned }
        match k.vm.mapRange cr3 virt phys aligned.toNat .userReadWrite with
        | (.error _, vm) => (failure, { k with vm }.dealloc phys)
        | (.ok (), vm) =>
            let k := { k with vm }
            if physOut ≠ 0 ∧ !k.validateRange cpu physOut 8 true then
              (failure, { k with vm := unmapRange vm cr3 virt aligned.toNat }.dealloc phys)
            else
              (virt.toNat,
                { k with dmaAllocs := k.dmaAllocs ++ [⟨caller, virt, phys, aligned.toNat⟩] })

def dmaFree (k : MemoryKernel) (cpu : Nat) (virt : BitVec 64) : Nat × MemoryKernel :=
  if virt = 0 then (failure, k) else
    let caller := k.callerPid cpu
    match Lib.takeFirst (fun a : DmaAlloc => a.virt = virt && a.pid = caller) k.dmaAllocs with
    | none => (failure, k)
    | some (a, dmaAllocs) =>
        match k.userCr3 caller with
        | none => (failure, { k with dmaAllocs })
        | some cr3 =>
            (0, { k with dmaAllocs, vm := unmapRange k.vm cr3 a.virt a.size }.dealloc a.phys)

end MemoryKernel

end KazuOS
