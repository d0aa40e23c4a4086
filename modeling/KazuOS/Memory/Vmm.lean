import KazuOS.Lib.Forest
import Mathlib.Data.BitVec

/-! Four-level page tables. Table memory is addressed by the page-aligned base of
a table and an entry index; pointers and entries are 64-bit words. -/
namespace KazuOS.Memory

abbrev pageSize : BitVec 64 := 4096
def present : BitVec 64 := 1 <<< 0
def writable : BitVec 64 := 1 <<< 1
def user : BitVec 64 := 1 <<< 2
def pwt : BitVec 64 := 1 <<< 3
def pcd : BitVec 64 := 1 <<< 4
def noExecuteBit : BitVec 64 := 1 <<< 63
def addrMask : BitVec 64 := 0x000ffffffffff000

inductive MapError where
  | outOfMemory
  | invalidAddress
  deriving DecidableEq, Repr

/-- Leaf permissions. The constructor is private to the module, so a value holds
permission bits only and never a part of an address. -/
structure MapFlags where
  bits : BitVec 64
  permissions : bits &&& addrMask = 0

namespace MapFlags

def userReadWrite : MapFlags := ⟨user ||| writable, by decide⟩
def userMmio : MapFlags := ⟨user ||| writable ||| pwt ||| pcd, by decide⟩

def noExecute (flags : MapFlags) : MapFlags :=
  ⟨flags.bits ||| noExecuteBit, by
    rw [BitVec.and_or_distrib_right, flags.permissions]
    decide⟩

end MapFlags

/-- Table memory, the kernel's own root, and what the kernel heap will answer to
the coming requests for a zeroed page. -/
structure Vmm where
  mem : BitVec 64 → Fin 512 → BitVec 64
  kernelPml4 : BitVec 64
  heap : List (Option (BitVec 64))

/-- A table has entries. -/
instance neZero_entries : NeZero 512 := ⟨by decide⟩

def index (virt : BitVec 64) (shift : Nat) : Fin 512 :=
  Fin.ofNat 512 ((virt >>> shift) &&& 0x1ff).toNat

def pml4Index (virt : BitVec 64) : Fin 512 := index virt 39
def pdptIndex (virt : BitVec 64) : Fin 512 := index virt 30
def pdIndex (virt : BitVec 64) : Fin 512 := index virt 21
def ptIndex (virt : BitVec 64) : Fin 512 := index virt 12

namespace Vmm

def write (vm : Vmm) (table : BitVec 64) (i : Fin 512) (value : BitVec 64) : Vmm :=
  { vm with mem := fun t j => if t = table ∧ j = i then value else vm.mem t j }

/-- A null pointer is the address zero. -/
def tableIfPresent (vm : Vmm) (parent : BitVec 64) (i : Fin 512) : BitVec 64 :=
  let entry := vm.mem parent i
  if entry &&& present ≠ 0 then entry &&& addrMask else 0

def allocTable (vm : Vmm) : Except MapError (BitVec 64) × Vmm :=
  match vm.heap with
  | [] => (.error .outOfMemory, vm)
  | none :: heap => (.error .outOfMemory, { vm with heap })
  | some page :: heap =>
      (.ok page, { vm with heap, mem := fun t j => if t = page then 0 else vm.mem t j })

def nextTable (vm : Vmm) (parent : BitVec 64) (i : Fin 512) (flags : MapFlags) :
    Except MapError (BitVec 64) × Vmm :=
  let entry := vm.mem parent i
  if entry &&& present ≠ 0 then (.ok (entry &&& addrMask), vm) else
    match vm.allocTable with
    | (.error e, vm) => (.error e, vm)
    | (.ok table, vm) =>
        let value := (table &&& addrMask) ||| present ||| writable ||| (flags.bits &&& user)
        (.ok table, vm.write parent i value)

def createAddressSpace (vm : Vmm) : Except MapError (BitVec 64) × Vmm :=
  match vm.allocTable with
  | (.error e, vm) => (.error e, vm)
  | (.ok pml4, vm) =>
      let kernel := vm.kernelPml4
      let mem := fun t (i : Fin 512) =>
        if t ≠ pml4 then vm.mem t i
        else if 1 ≤ i.val ∧ i.val < 256 then 0
        else vm.mem kernel i
      (.ok pml4, { vm with mem })

def mapPage (vm : Vmm) (cr3 virt phys : BitVec 64) (flags : MapFlags) :
    Except MapError Unit × Vmm :=
  if virt &&& (pageSize - 1) ≠ 0 ∨ phys &&& (pageSize - 1) ≠ 0 then
    (.error .invalidAddress, vm)
  else
    let pml4 := cr3 &&& addrMask
    match vm.nextTable pml4 (pml4Index virt) flags with
    | (.error e, vm) => (.error e, vm)
    | (.ok pdpt, vm) =>
        match vm.nextTable pdpt (pdptIndex virt) flags with
        | (.error e, vm) => (.error e, vm)
        | (.ok pd, vm) =>
            match vm.nextTable pd (pdIndex virt) flags with
            | (.error e, vm) => (.error e, vm)
            | (.ok pt, vm) =>
                (.ok (), vm.write pt (ptIndex virt)
                  ((phys &&& addrMask) ||| present ||| flags.bits))

def unmapPage (vm : Vmm) (cr3 virt : BitVec 64) : Vmm :=
  let pml4 := cr3 &&& addrMask
  let pdpt := vm.tableIfPresent pml4 (pml4Index virt)
  if pdpt = 0 then vm else
    let pd := vm.tableIfPresent pdpt (pdptIndex virt)
    if pd = 0 then vm else
      let pt := vm.tableIfPresent pd (pdIndex virt)
      if pt = 0 then vm else vm.write pt (ptIndex virt) 0

def translate (vm : Vmm) (cr3 virt : BitVec 64) : Option (BitVec 64) :=
  let pml4 := cr3 &&& addrMask
  let pdpt := vm.tableIfPresent pml4 (pml4Index virt)
  if pdpt = 0 then none else
    let pd := vm.tableIfPresent pdpt (pdptIndex virt)
    if pd = 0 then none else
      let pt := vm.tableIfPresent pd (pdIndex virt)
      if pt = 0 then none else
        let entry := vm.mem pt (ptIndex virt)
        if entry &&& present ≠ 0 then some (entry &&& addrMask) else none

def freeUserAddressSpace (vm : Vmm) (cr3 : BitVec 64) : Vmm :=
  let pml4 := cr3 &&& addrMask
  if pml4 = 0 ∨ pml4 = vm.kernelPml4 &&& addrMask then vm else
    { vm with mem := fun t i =>
        if t = pml4 ∧ 1 ≤ i.val ∧ i.val < 256 then 0 else vm.mem t i }

/-- The table an entry points to. -/
def child (vm : Vmm) (table : BitVec 64) (i : Fin 512) : Option (BitVec 64) :=
  if vm.mem table i &&& present ≠ 0 then some (vm.mem table i &&& addrMask) else none

/-- What the hardware reads at the end of a walk. -/
def leaf (vm : Vmm) (s : BitVec 64 × Fin 512) : Option (BitVec 64) := vm.child s.1 s.2

end Vmm

end KazuOS.Memory
