import KazuOS.Kernel.Files
import KazuOS.Kernel.Ipc

/-! The end of threads and processes. `exit_current` has two critical sections: the
first lets all but the last thread go alone, the second tears the process down. -/
namespace KazuOS.Kernel

open KazuOS.Memory KazuOS.Task

/-- Unmap consecutive pages. -/
def unmapPages (vm : Vmm) (cr3 virt : BitVec 64) (pages : Nat) : Vmm :=
  (List.range pages).foldl (fun vm i => vm.unmapPage cr3 (virt + BitVec.ofNat 64 (i * 4096))) vm

def unmapRange (vm : Vmm) (cr3 virt : BitVec 64) (size : Nat) : Vmm :=
  unmapPages vm cr3 virt (divCeil size 4096)

/-- Return the frame behind one page to the frame allocator and unmap the page. -/
def freeUserPage (cr3 : BitVec 64) (state : Pmm × Vmm) (virt : BitVec 64) : Pmm × Vmm :=
  let pmm := match state.2.translate cr3 virt with
    | some phys => state.1.freeFrame phys.toNat
    | none => state.1
  (pmm, state.2.unmapPage cr3 virt)

def freeUserPages (cr3 : BitVec 64) (state : Pmm × Vmm) (virt : BitVec 64) (pages : Nat) :
    Pmm × Vmm :=
  (List.range pages).foldl
    (fun state i => freeUserPage cr3 state (virt + BitVec.ofNat 64 (i * 4096))) state

/-- The address space of a process is looked up through its main thread. -/
def userCr3 (k : Kernel) (pid : Nat) : Option (BitVec 64) :=
  (k.tasks.userCr3 pid).map (BitVec.ofNat 64)

def freeHeapForPid (k : Kernel) (pid : Nat) : Kernel :=
  let (removed, heapAllocs) := Lib.extract (·.pid = pid) k.heapAllocs.length k.heapAllocs
  match k.userCr3 pid with
  | some cr3 =>
      let (pmm, vm) := removed.foldl
        (fun state a => freeUserPages cr3 state a.virt (a.size / 4096)) (k.pmm, k.vm)
      { k with heapAllocs, pmm, vm }
  | none => { k with heapAllocs }

def freeDmaForPid (k : Kernel) (pid : Nat) : Kernel :=
  let (removed, dmaAllocs) := Lib.extract (·.pid = pid) k.dmaAllocs.length k.dmaAllocs
  let vm := match k.userCr3 pid with
    | some cr3 => removed.foldl (fun vm a => unmapRange vm cr3 a.virt a.size) k.vm
    | none => k.vm
  { k with dmaAllocs, vm, freedBuffers := (removed.map (·.phys)).reverse ++ k.freedBuffers }

def freePciMmioForPid (k : Kernel) (pid : Nat) : Kernel :=
  let (removed, pciMmioAllocs) := Lib.extract (·.pid = pid) k.pciMmioAllocs.length k.pciMmioAllocs
  let vm := match k.userCr3 pid with
    | some cr3 => removed.foldl (fun vm a => unmapRange vm cr3 a.virt a.size) k.vm
    | none => k.vm
  { k with pciMmioAllocs, vm }

def freeImageForPid (k : Kernel) (pid : Nat) : Kernel :=
  let (removed, imageAllocs) := Lib.extract (·.pid = pid) k.imageAllocs.length k.imageAllocs
  { k with imageAllocs, pmm := removed.foldl (fun pmm a => pmm.freeFrames a.phys a.pages) k.pmm }

/-- Drop a pid's mapping of one object and unmap its pages. -/
def unmapHolder (pid : Nat) (cr3 : BitVec 64) (shm : Shm) (vm : Vmm) : Shm × Vmm × Nat :=
  match shm.mappings.findIdx? (·.pid = pid), shm.mappings.find? (·.pid = pid) with
  | some pos, some mapping =>
      let size := shm.frames.length * 4096
      ({ shm with mappings := Lib.swapRemove shm.mappings pos },
        unmapRange vm cr3 mapping.virt size, size)
  | _, _ => (shm, vm, 0)

/-- The loop of `cleanup_pid` from an index on: objects and page tables, the bytes that
were unmapped, and the frames of the objects that lost their last holder. -/
def cleanupFrom (pid : Nat) (cr3 : BitVec 64) :
    Nat → Nat → List Shm → Vmm → List Shm × Vmm × Nat × List Nat
  | 0, _, objects, vm => (objects, vm, 0, [])
  | fuel + 1, i, objects, vm =>
      match objects[i]? with
      | none => (objects, vm, 0, [])
      | some shm =>
          let (shm, vm, size) := unmapHolder pid cr3 shm vm
          let shm := { shm with holders := shm.holders.filter (· ≠ pid) }
          let objects := objects.set i shm
          if shm.holders = [] then
            let (objects, vm, unmapped, frames) :=
              cleanupFrom pid cr3 fuel i (Lib.swapRemove objects i) vm
            (objects, vm, size + unmapped, shm.frames ++ frames)
          else
            let (objects, vm, unmapped, frames) := cleanupFrom pid cr3 fuel (i + 1) objects vm
            (objects, vm, size + unmapped, frames)

def subMemoryBytes (ts : Tasks) (pid bytes : Nat) : Tasks :=
  ts.updateProcess pid fun p => { p with memoryBytes := p.memoryBytes - bytes }

def cleanupPid (k : Kernel) (pid : Nat) (cr3 : BitVec 64) : Kernel :=
  let (shmObjects, vm, unmapped, frames) :=
    cleanupFrom pid cr3 k.shmObjects.length 0 k.shmObjects k.vm
  { k with
    shmObjects
    vm
    tasks := if unmapped = 0 then k.tasks else subMemoryBytes k.tasks pid unmapped
    pmm := frames.foldl Pmm.freeFrame k.pmm }

def releaseIrqForPid (k : Kernel) (pid : Nat) : Kernel :=
  if k.driverIrq.owner = pid then
    let k' := if k.driverIrq.audio then k.driverStopped else k
    { k' with driverIrq := ⟨0, 0, 0, false⟩ }
  else k

/-- The framebuffer's saved pixels are not modelled. -/
def releaseFramebuffer (k : Kernel) (pid : Nat) : Kernel :=
  if k.fbOwner = some pid then { k with fbOwner := none }.flushKeyboard else k

def freeAddressSpace (k : Kernel) (cpu pid : Nat) : Kernel :=
  match k.userCr3 pid with
  | some cr3 =>
      let k := (k.cleanupPid pid cr3).switchCr3 cpu k.vm.kernelPml4
      { k with vm := k.vm.freeUserAddressSpace cr3 }
  | none => k

def onTasks (k : Kernel) (f : Tasks → Tasks) : Kernel := { k with tasks := f k.tasks }

/-- What the tables other than those of threads and processes hold for a pid goes. -/
def freeResources (k : Kernel) (cpu pid : Nat) : Kernel :=
  let k := k.releaseFramebuffer pid
  let k := k.onTasks (·.clearCurrentUser cpu pid)
  let k := k.closeAll pid
  let k := k.releaseIrqForPid pid
  let k := k.freeDmaForPid pid
  let k := k.freePciMmioForPid pid
  let k := k.freeHeapForPid pid
  let k := k.freeAddressSpace cpu pid
  k.freeImageForPid pid

def wakeupPidWaiters (ts : Tasks) (pid : Nat) : Tasks :=
  { ts with threads := ts.threads.wakeupPidWaiters ts.mem pid }

/-- The second critical section of `exit_current`. -/
def teardown (k : Kernel) (cpu : Nat) : Kernel :=
  let pid := k.tasks.currentPid cpu
  let tid := k.tasks.currentTid cpu
  let k :=
    if pid = 0 then k.onTasks (·.updateProcess 0 fun p => { p with state := .running })
    else
      let stackBase := k.tasks.kernelStackBase tid
      let k := k.onTasks (·.killChildren pid)
      let k := k.freeResources cpu pid
      let k := k.onTasks (·.removeProcess pid)
      let k := k.onTasks (wakeupPidWaiters · pid)
      k.onTasks (·.deferFreeKernelStack cpu stackBase)
  let k := k.onTasks (·.clearCurrentPid cpu)
  if tid = 0 then k else
    k.onTasks fun ts =>
      { ts with threads := (ts.threads.setState tid .exited).wakeupThreadWaiters ts.mem tid }

/-- The first critical section of `exit_current`: true if the calling thread was not the
last one and has left alone. -/
def exitSelf (k : Kernel) (cpu : Nat) : Bool × Kernel :=
  let pid := k.tasks.currentPid cpu
  if pid ≠ 0 ∧ 1 < k.tasks.liveThreadCount pid then
    (true, k.onTasks fun ts => (ts.setKillPending pid).exitCurrentThread cpu)
  else (false, k)

def exitCurrent (k : Kernel) (cpu : Nat) : Kernel :=
  match k.exitSelf cpu with
  | (true, k) => k
  | (false, k) => k.teardown cpu

end KazuOS.Kernel
