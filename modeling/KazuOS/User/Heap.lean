import KazuOS.Memory.HeapPartition

/-! The global allocator of user programs. It asks the kernel for arenas, keeps the free
memory of all of them in one address-sorted list threaded through the free blocks, and
hands an arena back once a free block covers exactly that arena. Nodes and headers are
laid out as in the kernel heap, so the list operations are the same. -/
namespace KazuOS.User

open Lib Memory KernelAllocator

def maxArenas : Nat := 1024
def arenaSize : Nat := 128 * 1024

/-- The heap of a process and the process's memory. A slot of the arena table holds an
address and a size; the address of an empty slot is zero. -/
structure Heap where
  mem : Nat → Nat
  head : Nat
  arenas : List (Nat × Nat)

namespace Heap

def new (mem : Nat → Nat) : Heap := ⟨mem, 0, List.replicate maxArenas (0, 0)⟩

/-- The free list, as that of an allocator without caches. -/
def pool (heap : Heap) : KernelAllocator := ⟨heap.mem, heap.head, fun _ => 0, fun _ => 0⟩

def withPool (heap : Heap) (pool : KernelAllocator) : Heap :=
  { heap with mem := pool.mem, head := pool.head }

def setNext (heap : Heap) (prev next : Nat) : Heap :=
  heap.withPool (heap.pool.setNext prev next)

def insert (heap : Heap) (addr size : Nat) : Option Heap :=
  match findPlace heap.mem addr fuel 0 heap.head with
  | none => none
  | some (prev, cur) =>
      let linked := (heap.pool.writeNode addr size cur).setNext prev addr
      some { heap with mem := mergeNode linked.mem prev addr size cur, head := linked.head }

/-- The size of the arena requested for an allocation of `min` bytes. -/
def growSize (min : Nat) : Nat := alignUp (if arenaSize < min then min else arenaSize) 4096

/-- The answers of SYS_HEAP_ALLOC that stand for a failure. -/
def Refusal (p : Nat) : Prop := p = 0 ∨ p = 2 ^ 64 - 1

instance (p : Nat) : Decidable (Refusal p) := inferInstanceAs (Decidable (_ ∨ _))

/-- Store an arena in the first empty slot, if there is one. -/
def record (arena : Nat × Nat) : List (Nat × Nat) → List (Nat × Nat)
  | [] => []
  | slot :: rest => if slot.1 = 0 then arena :: rest else slot :: record arena rest

/-- Memory after the kernel has mapped a range; the range is filled with something. -/
def mapRange (mem : Nat → Nat) (p want : Nat) (fill : Nat → Nat) : Nat → Nat := fun w =>
  if p ≤ w ∧ w < p + want then fill w else mem w

/-- `p` is what SYS_HEAP_ALLOC answers, `fill` what it leaves in the pages. -/
def grow (heap : Heap) (min p : Nat) (fill : Nat → Nat) : Option (Bool × Heap) :=
  let want := growSize min
  if Refusal p then some (false, heap)
  else
    let heap := { heap with
      mem := mapRange heap.mem p want fill
      arenas := record (p, want) heap.arenas }
    (heap.insert p want).map fun heap => (true, heap)

/-- The search of release_empty_arenas: the node before the one that covers exactly the
arena. -/
def findExact (mem : Nat → Nat) (addr size : Nat) : Nat → Nat → Nat → Option (Option Nat)
  | 0, _, _ => none
  | n + 1, prev, cur =>
      if cur = 0 then some none
      else if cur = addr ∧ mem cur = size then some (some prev)
      else findExact mem addr size n cur (mem (cur + 8))

/-- The loop of release_empty_arenas over the slots still to visit. Every call of
SYS_HEAP_FREE is listed with the heap as it is then, the node unlinked. -/
def releaseSlots (heap : Heap) (visited : List (Nat × Nat)) :
    List (Nat × Nat) → Option (Heap × List (Nat × Heap))
  | [] => some (heap, [])
  | slot :: rest =>
      if slot.1 = 0 then releaseSlots heap (visited ++ [slot]) rest
      else match findExact heap.mem slot.1 slot.2 fuel 0 heap.head with
        | none => none
        | some none => releaseSlots heap (visited ++ [slot]) rest
        | some (some prev) =>
            let heap := heap.setNext prev (heap.mem (slot.1 + 8))
            (releaseSlots { heap with arenas := visited ++ (0, 0) :: rest } (visited ++ [(0, 0)])
              rest).map fun (after, calls) => (after, (slot.1, heap) :: calls)

def releaseEmptyArenas (heap : Heap) : Option (Heap × List (Nat × Heap)) :=
  heap.releaseSlots [] heap.arenas

/-- First fit; a null result is zero. -/
def take (heap : Heap) (need header align : Nat) : Option (Nat × Heap) :=
  match findFit heap.mem need fuel 0 heap.head with
  | none => none
  | some none => some (0, heap)
  | some (some (prev, cur)) =>
      let addr := cur
      let total := heap.mem cur
      let next := heap.mem (cur + 8)
      let heap := heap.setNext prev next
      let remainder := total - need
      let (heap?, kept) :=
        if nodeSize ≤ remainder then (heap.insert (addr + need) remainder, need)
        else (some heap, total)
      heap?.map fun heap =>
        let user := alignUp (addr + header) align
        let mem := Function.update heap.mem (user - header) addr
        let mem := Function.update mem (user - header + 8) kept
        (user, { heap with mem })

/-- What a call of alloc returns, and what SYS_HEAP_ALLOC answered if it was called. -/
structure AllocResult where
  ptr : Nat
  heap : Heap
  answer : Option Nat

def alloc (heap : Heap) (layout : Layout) (p : Nat) (fill : Nat → Nat) : Option AllocResult := do
  let align := allocAlign layout
  let need := allocNeed layout
  let (ptr, heap) ← heap.take need headerSize align
  if ptr ≠ 0 then return ⟨ptr, heap, none⟩
  let (grown, heap) ← heap.grow need p fill
  if grown then
    let (ptr, heap) ← heap.take need headerSize align
    return ⟨ptr, heap, some p⟩
  return ⟨0, heap, some p⟩

def dealloc (heap : Heap) (ptr : Nat) : Option (Heap × List (Nat × Heap)) := do
  let addr := heap.mem (ptr - headerSize)
  let size := heap.mem (ptr - headerSize + 8)
  let heap ← heap.insert addr size
  heap.releaseEmptyArenas

end Heap

end KazuOS.User
