import KazuOS.Memory.Pmm
import KazuOS.Memory.Vmm
import KazuOS.Task.Scheduler

/-! The kernel's tables: descriptors and pipes, channels, keyboard ring, memory
records and shared memory, beside threads, page tables and frames. -/
namespace KazuOS

open KazuOS.Memory KazuOS.Task

structure PipeState where
  data : List UInt8
  writeRefs : Nat
  readRefs : Nat
  deriving DecidableEq, Repr

inductive FdEntry where
  | empty
  | file (node generation offset : Nat)
  | device (handle : Nat)
  | consoleOut
  | consoleIn
  | pipeRead (id : Nat)
  | pipeWrite (id : Nat)
  deriving DecidableEq, Repr

structure Channel where
  name : List UInt8
  queue : List (List UInt8)
  recvWaiters : List Nat
  sendWaiters : List Nat
  refCount : Nat
  deriving DecidableEq, Repr

/-- The text ring; the byte at `head` is the next free place. -/
structure Keyboard where
  buf : Nat → UInt8
  head : Nat
  tail : Nat

structure HeapAlloc where
  pid : Nat
  virt : BitVec 64
  size : Nat
  deriving DecidableEq, Repr

structure DmaAlloc where
  pid : Nat
  virt : BitVec 64
  phys : BitVec 64
  size : Nat
  deriving DecidableEq, Repr

structure PciMmioAlloc where
  pid : Nat
  virt : BitVec 64
  size : Nat
  deriving DecidableEq, Repr

/-- Image frames: code or stack of a loaded program. -/
structure ImageAlloc where
  pid : Nat
  phys : Nat
  pages : Nat
  deriving DecidableEq, Repr

structure Mapping where
  pid : Nat
  virt : BitVec 64
  deriving DecidableEq, Repr

structure Shm where
  id : Nat
  owner : Nat
  frames : List Nat
  holders : List Nat
  mappings : List Mapping
  deriving DecidableEq, Repr

/-- The one interrupt line a driver can claim. -/
structure DriverIrq where
  owner : Nat
  number : Nat
  bdf : Nat
  audio : Bool
  deriving DecidableEq, Repr

structure Kernel where
  tasks : Tasks
  pipes : List (Option PipeState)
  tables : List (Option (List FdEntry))
  channels : List (Option Channel)
  audioChannel : Nat
  audioOnline : Bool
  keyboard : Keyboard
  fbOwner : Option Nat
  driverIrq : DriverIrq
  vm : Vmm
  pmm : Pmm
  heapAllocs : List HeapAlloc
  dmaAllocs : List DmaAlloc
  pciMmioAllocs : List PciMmioAlloc
  imageAllocs : List ImageAlloc
  shmObjects : List Shm
  /-- Buffers handed back to the kernel heap, newest first. -/
  freedBuffers : List (BitVec 64)
  activeCr3 : Nat → BitVec 64
  tscPerMs : Nat

namespace Kernel

def exitToKernel : Nat := 2 ^ 64 - 2
def blockToScheduler : Nat := 2 ^ 64 - 3
def failure : Nat := 2 ^ 64 - 1

def setThreads (k : Kernel) (threads : Threads) : Kernel :=
  { k with tasks := { k.tasks with threads } }

def callerPid (k : Kernel) (cpu : Nat) : Nat := (k.tasks.currentUserPid cpu).getD 0

/-! User memory. -/

def userMin : Nat := 0x0000008000000000
def userMax : Nat := 0x0000800000000000
def maxTransfer : Nat := 16 * 1024 * 1024

/-- The permission bits are needed at every level of the walk. -/
def accessibleFrom (vm : Vmm) (need virt : BitVec 64) : List Nat → BitVec 64 → Bool
  | [], _ => true
  | shift :: shifts, table =>
      let entry := vm.mem table (index virt shift)
      entry &&& present ≠ 0 && entry &&& need = need &&
        accessibleFrom vm need virt shifts (entry &&& addrMask)

def userAccessible (vm : Vmm) (cr3 virt : BitVec 64) (write : Bool) : Bool :=
  accessibleFrom vm (user ||| if write then writable else 0) virt [39, 30, 21, 12]
    (cr3 &&& addrMask)

def validateRangeIn (vm : Vmm) (cr3 : BitVec 64) (ptr len : Nat) (write : Bool) : Bool :=
  if len = 0 then true
  else if maxTransfer < len ∨ 2 ^ 64 ≤ ptr + len then false
  else if ptr < userMin ∨ userMax < ptr + len then false
  else
    let first := ptr / 4096
    let last := (ptr + len - 1) / 4096
    (List.range (last - first + 1)).all fun i =>
      userAccessible vm cr3 (BitVec.ofNat 64 ((first + i) * 4096)) write

def validateRange (k : Kernel) (cpu ptr len : Nat) (write : Bool) : Bool :=
  validateRangeIn k.vm (k.activeCr3 cpu) ptr len write

def switchCr3 (k : Kernel) (cpu : Nat) (cr3 : BitVec 64) : Kernel :=
  { k with activeCr3 := Function.update k.activeCr3 cpu (cr3 &&& addrMask) }

end Kernel

end KazuOS
