import KazuOS.Kernel.Exit

/-! Shared memory: objects made of frames, handed on by their owner, and mapped by each
holder at one place. The object table has a lock of its own; every call is taken whole. -/
namespace KazuOS

open KazuOS.Kernel KazuOS.Memory KazuOS.Task

def userShmBase : Nat := 0x000000B000000000
def userShmLimit : Nat := 0x000000C000000000

/-- The kernel with the counter that numbers shared memory objects. -/
structure ShmKernel extends Kernel where
  nextShmId : Nat

def addMemoryBytes (ts : Tasks) (pid bytes : Nat) : Tasks :=
  ts.updateProcess pid fun p => { p with memoryBytes := min (p.memoryBytes + bytes) (2 ^ 64 - 1) }

/-- The calling process and its address space. -/
def currentContext (k : Kernel) (cpu : Nat) : Option (Nat × BitVec 64) :=
  match k.tasks.currentUserPid cpu with
  | none => none
  | some pid =>
      if k.activeCr3 cpu = k.vm.kernelPml4 then none else some (pid, k.activeCr3 cpu)

/-- The loop of `map` over the frames. An error comes with the number of its page. -/
def mapFrames (cr3 virt : BitVec 64) : Nat → List Nat → Vmm → Option Nat × Vmm
  | _, [], vm => (none, vm)
  | page, frame :: frames, vm =>
      match vm.mapPage cr3 (virt + BitVec.ofNat 64 (page * 4096)) (BitVec.ofNat 64 frame)
          MapFlags.userReadWrite.noExecute with
      | (.error _, vm) => (some page, vm)
      | (.ok (), vm) => mapFrames cr3 virt (page + 1) frames vm

namespace Shm

def size (shm : Shm) : Nat := shm.frames.length * 4096

def addMapping (shm : Shm) (mapping : Mapping) : Shm :=
  { shm with mappings := shm.mappings ++ [mapping] }

/-- Where the ranges of all mappings start and how long they are. -/
def ranges (objects : List Shm) : List (Mapping × Nat) :=
  objects.flatMap fun shm => shm.mappings.map fun mapping => (mapping, shm.size)

/-- The loop over the mappings: the greatest end of those of the process that meet the
range. No result at all if an end leaves the 64 bits. -/
def overlapEnd (pid candidate stop : Nat) : List (Mapping × Nat) → Option Nat → Option (Option Nat)
  | [], next => some next
  | (mapping, mappedSize) :: rest, next =>
      if mapping.pid ≠ pid then overlapEnd pid candidate stop rest next
      else
        let mappedEnd := mapping.virt.toNat + mappedSize
        if 2 ^ 64 ≤ mappedEnd then none
        else if candidate < mappedEnd ∧ mapping.virt.toNat < stop then
          overlapEnd pid candidate stop rest (some (next.elim mappedEnd (max · mappedEnd)))
        else overlapEnd pid candidate stop rest next

/-- The loop of `find_free_range` from a candidate on. It has no result when the rounds run out before
it returns. -/
def findFrom (objects : List Shm) (vm : Vmm) (pid : Nat) (cr3 : BitVec 64) (size : Nat) :
    Nat → Nat → Option (Option (BitVec 64))
  | 0, _ => none
  | fuel + 1, candidate =>
      let stop := candidate + size
      if 2 ^ 64 ≤ stop ∨ userShmLimit < stop then some none else
        match overlapEnd pid candidate stop (ranges objects) none with
        | none => some none
        | some (some value) => findFrom objects vm pid cr3 size fuel value
        | some none =>
            if (List.range (divCeil size 4096)).any fun i =>
                (vm.translate cr3 (BitVec.ofNat 64 (candidate + i * 4096))).isSome then
              if 2 ^ 64 ≤ candidate + 4096 then some none
              else findFrom objects vm pid cr3 size fuel (candidate + 4096)
            else some (some (BitVec.ofNat 64 candidate))

/-- A candidate grows with each round and stays below the limit. -/
def findFreeRange (objects : List Shm) (vm : Vmm) (pid : Nat) (cr3 : BitVec 64) (size : Nat) :
    Option (BitVec 64) :=
  (findFrom objects vm pid cr3 size (userShmLimit - userShmBase + 1) userShmBase).join

end Shm

namespace ShmKernel

def map (k : ShmKernel) (cpu id : Nat) : Nat × ShmKernel :=
  match currentContext k.toKernel cpu with
  | none => (failure, k)
  | some (pid, cr3) =>
      let held := fun shm : Shm => shm.id = id && pid ∈ shm.holders
      match k.shmObjects.find? held with
      | none => (failure, k)
      | some shm =>
          match shm.mappings.find? (·.pid = pid) with
          | some mapping => (mapping.virt.toNat, k)
          | none =>
              match Shm.findFreeRange k.shmObjects k.vm pid cr3 shm.size with
              | none => (failure, k)
              | some virt =>
                  match mapFrames cr3 virt 0 shm.frames k.vm with
                  | (some page, vm) =>
                      (failure, { k with vm := unmapRange vm cr3 virt (page * 4096) })
                  | (none, vm) =>
                      (virt.toNat, { k with
                        vm
                        shmObjects :=
                          Lib.modifyFirst held (·.addMapping ⟨pid, virt⟩) k.shmObjects
                        tasks := if shm.size = 0 then k.tasks
                          else addMemoryBytes k.tasks pid shm.size })

end ShmKernel

end KazuOS
