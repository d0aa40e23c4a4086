import KazuOS.Lib.FreeList
import KazuOS.Memory.Pmm
import Mathlib.Data.Fin.VecNotation

/-! The kernel heap. A global free list is threaded through the free blocks
themselves; each CPU keeps stacks of small blocks of fixed sizes, threaded the same
way; a header before every pointer handed out records the block it came from.
Memory is a map from word addresses to words, and a null pointer is zero. -/
namespace KazuOS.Memory

/-- What `Layout` guarantees: a power of two, and a size that still fits an
`isize` after rounding up to it. -/
structure Layout where
  size : Nat
  log : Nat
  fits : size + 2 ^ log ≤ 2 ^ 63
  deriving DecidableEq

def Layout.align (layout : Layout) : Nat := 2 ^ layout.log

/-- The size of a free-list node and of an allocation header, and their alignment. -/
abbrev nodeSize : Nat := 16
abbrev headerSize : Nat := 16
abbrev wordAlign : Nat := 8

def classSize : Fin 6 → Nat := ![64, 128, 256, 512, 1024, 2048]
def cacheCap : Nat := 64
abbrev maxCpus : Nat := 16

def alignUp (v align : Nat) : Nat := wrap (v + align - 1) &&& (2 ^ 64 - 1 - (align - 1))

def classFor (need : Nat) : Option (Fin 6) := (List.finRange 6).find? fun i => need ≤ classSize i
def exactClass (size : Nat) : Option (Fin 6) := (List.finRange 6).find? fun i => classSize i = size

/-- The allocator and the memory it lives in. The caches are indexed by CPU and
size class. -/
structure KernelAllocator where
  mem : Nat → Nat
  head : Nat
  heads : Fin maxCpus × Fin 6 → Nat
  counts : Fin maxCpus × Fin 6 → Nat

namespace KernelAllocator

/-- Any loop over the list visits at most as many nodes as there are addresses. -/
def fuel : Nat := 2 ^ 64

/-- The search of insert_nolock: the last node before `addr` and its successor. -/
def findPlace (mem : Nat → Nat) (addr : Nat) : Nat → Nat → Nat → Option (Nat × Nat)
  | 0, _, _ => none
  | n + 1, prev, cur =>
      if cur ≠ 0 ∧ cur < addr then findPlace mem addr n cur (mem (cur + 8)) else some (prev, cur)

/-- The search of take_raw: the first node of at least `need` bytes and the node
before it. -/
def findFit (mem : Nat → Nat) (need : Nat) : Nat → Nat → Nat → Option (Option (Nat × Nat))
  | 0, _, _ => none
  | n + 1, prev, cur =>
      if cur = 0 then some none
      else if need ≤ mem cur then some (some (prev, cur))
      else findFit mem need n cur (mem (cur + 8))

/-- Store `next` in the successor word of `prev`, or in the head if there is none. -/
def setNext (heap : KernelAllocator) (prev next : Nat) : KernelAllocator :=
  if prev = 0 then { heap with head := next }
  else { heap with mem := Function.update heap.mem (prev + 8) next }

def writeNode (heap : KernelAllocator) (node size next : Nat) : KernelAllocator :=
  { heap with mem := Function.update (Function.update heap.mem node size) (node + 8) next }

/-- Merge a node just linked with its successor, then with its predecessor. -/
def mergeNode (mem : Nat → Nat) (prev addr size cur : Nat) : Nat → Nat :=
  let mem := if cur ≠ 0 ∧ addr + size = cur then Lib.absorb mem addr cur else mem
  if prev ≠ 0 ∧ prev + mem prev = addr then Lib.absorb mem prev addr else mem

def insertNolock (heap : KernelAllocator) (addr size : Nat) : Option KernelAllocator :=
  if size < nodeSize then some heap else
    match findPlace heap.mem addr fuel 0 heap.head with
    | none => none
    | some (prev, cur) =>
        let heap := (heap.writeNode addr size cur).setNext prev addr
        some { heap with mem := mergeNode heap.mem prev addr size cur }

def takeRaw (heap : KernelAllocator) (need : Nat) : Option (Option (Nat × Nat) × KernelAllocator) :=
  match findFit heap.mem need fuel 0 heap.head with
  | none => none
  | some none => some (none, heap)
  | some (some (prev, cur)) =>
      let addr := cur
      let total := heap.mem cur
      let next := heap.mem (cur + 8)
      let heap := setNext heap prev next
      let rem := total - need
      if nodeSize ≤ rem then
        (heap.insertNolock (addr + need) rem).map fun heap => (some (addr, need), heap)
      else some (some (addr, total), heap)

def giveRaw (heap : KernelAllocator) (addr size : Nat) : Option KernelAllocator :=
  heap.insertNolock addr size

/-- Write the allocation header just before the aligned user pointer. -/
def finishAlloc (heap : KernelAllocator) (addr blockSize align : Nat) : Nat × KernelAllocator :=
  let user := alignUp (addr + headerSize) align
  let mem := Function.update heap.mem (user - headerSize) addr
  let mem := Function.update mem (user - headerSize + 8) blockSize
  (user, { heap with mem })

/-- The cached block on top of a stack, its successor stored in its first word. -/
def popCache (heap : KernelAllocator) (cpu : Fin maxCpus) (ci : Fin 6) : Nat × KernelAllocator :=
  let addr := heap.heads (cpu, ci)
  (addr, { heap with
    heads := Function.update heap.heads (cpu, ci) (heap.mem addr)
    counts := Function.update heap.counts (cpu, ci) (heap.counts (cpu, ci) - 1) })

def pushCache (heap : KernelAllocator) (cpu : Fin maxCpus) (ci : Fin 6) (addr : Nat) :
    KernelAllocator :=
  { heap with
    mem := Function.update heap.mem addr (heap.heads (cpu, ci))
    heads := Function.update heap.heads (cpu, ci) addr
    counts := Function.update heap.counts (cpu, ci) (heap.counts (cpu, ci) + 1) }

def allocAlign (layout : Layout) : Nat := max (max layout.align wordAlign) wordAlign

def allocNeed (layout : Layout) : Nat :=
  alignUp (headerSize + layout.size + allocAlign layout) wordAlign

/-- Take a block from the global pool; a null result leaves the heap as it was. -/
def allocGlobal (heap : KernelAllocator) (need align : Nat) : Option (Nat × KernelAllocator) :=
  (heap.takeRaw need).map fun
    | (some (addr, kept), heap) => heap.finishAlloc addr kept align
    | (none, heap) => (0, heap)

def alloc (heap : KernelAllocator) (cpu : Fin maxCpus) (layout : Layout) :
    Option (Nat × KernelAllocator) :=
  let align := allocAlign layout
  let need := allocNeed layout
  match classFor need with
  | some ci =>
      if heap.heads (cpu, ci) ≠ 0 then
        let (addr, heap) := heap.popCache cpu ci
        some (heap.finishAlloc addr (classSize ci) align)
      else heap.allocGlobal (classSize ci) align
  | none => heap.allocGlobal need align

def dealloc (heap : KernelAllocator) (cpu : Fin maxCpus) (ptr : Nat) : Option KernelAllocator :=
  let addr := heap.mem (ptr - headerSize)
  let size := heap.mem (ptr - headerSize + 8)
  match exactClass size with
  | some ci =>
      if heap.counts (cpu, ci) < cacheCap then some (heap.pushCache cpu ci addr)
      else heap.giveRaw addr size
  | none => heap.giveRaw addr size

/-- Before init there is no free block and every cache is empty. -/
def empty (mem : Nat → Nat) : KernelAllocator := ⟨mem, 0, fun _ => 0, fun _ => 0⟩

def init (mem : Nat → Nat) (heapStart heapSize : Nat) : Option KernelAllocator :=
  (empty mem).insertNolock heapStart heapSize

end KernelAllocator

end KazuOS.Memory
