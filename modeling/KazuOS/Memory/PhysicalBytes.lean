import KazuOS.Lib.Bits
import KazuOS.Lib.ByteMemory
import KazuOS.Memory.AddressSpaces

/-! Memory by bytes. Page tables and frames are parts of one memory, which the kernel reaches
at physical addresses. A store changes the words whose bytes it covers, so it leaves every page
alone that it does not touch. -/
namespace KazuOS.Memory

open KazuOS.Lib

/-- The first address of a page. -/
def pageBase (a : BitVec 64) : BitVec 64 := a &&& ~~~0xfff

namespace Vmm

def bytes (vm : Vmm) : ByteMemory 64 := fun a =>
  (leBytes 8 (vm.mem (pageBase a) (index a 3)).toNat).getD (a.toNat % 8) 0

def store (vm : Vmm) (s : Store 64) : Vmm :=
  { vm with mem := fun t i =>
      let addr := t + BitVec.ofNat 64 (8 * i.val)
      if pageBase t = t ∧ (List.range 8).any (fun k => s.Covers (addr + BitVec.ofNat 64 k)) then
        BitVec.ofNat 64 (wordAt (vm.bytes.write s) addr)
      else vm.mem t i }

def stores (vm : Vmm) (ss : List (Store 64)) : Vmm := ss.foldl store vm

end Vmm

open Vmm AddressSpaces

theorem pageBase_toNat (a : BitVec 64) : (pageBase a).toNat = a.toNat / 4096 * 4096 := by
  have hmask : (~~~(0xfff : BitVec 64)).toNat = 2 ^ 64 - 1 - (2 ^ 12 - 1) := by decide
  rw [pageBase, BitVec.toNat_and, hmask, and_high_bits a.isLt (by decide)]
  rfl

/-- An address is a byte of a word of its page. -/
theorem address_eq (a : BitVec 64) :
    pageBase a + BitVec.ofNat 64 (8 * (index a 3).val) + BitVec.ofNat 64 (a.toNat % 8) = a := by
  apply BitVec.eq_of_toNat_eq
  have ha := a.isLt
  rw [BitVec.toNat_add, BitVec.toNat_add, BitVec.toNat_ofNat, BitVec.toNat_ofNat, pageBase_toNat,
    index_val]
  omega

variable {t : BitVec 64} {k : Nat}

theorem toNat_wordByte (ht : pageBase t = t) (i : Fin 512) (hk : k < 8) :
    (t + BitVec.ofNat 64 (8 * i.val) + BitVec.ofNat 64 k).toNat = t.toNat + 8 * i.val + k ∧
      t.toNat % 4096 = 0 := by
  have hbase := pageBase_toNat t
  rw [ht] at hbase
  have hlt := t.isLt
  have hi := i.isLt
  rw [BitVec.toNat_add, BitVec.toNat_add, BitVec.toNat_ofNat, BitVec.toNat_ofNat]
  omega

/-- The bytes of a word of a page belong to that page. -/
theorem pageBase_wordByte (ht : pageBase t = t) (i : Fin 512)
    (hk : k < 8) : pageBase (t + BitVec.ofNat 64 (8 * i.val) + BitVec.ofNat 64 k) = t := by
  obtain ⟨haddr, haligned⟩ := toNat_wordByte ht i hk
  have hi := i.isLt
  apply BitVec.eq_of_toNat_eq
  rw [pageBase_toNat, haddr]
  omega

section Store

variable (vm : Vmm) (s : Store 64)

/-- A store leaves the pages alone that it does not touch. -/
theorem mem_store {t : BitVec 64} (h : ∀ a, s.Covers a → pageBase a ≠ t) :
    (vm.store s).mem t = vm.mem t := by
  funext i
  refine if_neg ?_
  rintro ⟨ht, hany⟩
  obtain ⟨k, hk, hcovers⟩ := List.any_eq_true.mp hany
  exact h _ (of_decide_eq_true hcovers) (pageBase_wordByte ht i (List.mem_range.mp hk))

theorem bytes_store : (vm.store s).bytes = vm.bytes.write s := by
  funext a
  have hbase : pageBase (pageBase a) = pageBase a := by
    apply BitVec.eq_of_toNat_eq
    rw [pageBase_toNat, pageBase_toNat]
    omega
  have hk : a.toNat % 8 < 8 := Nat.mod_lt _ (by decide)
  rw [Vmm.bytes, Vmm.store]
  dsimp only
  split
  · -- the byte is one of the eight the new word is made of
    rw [BitVec.toNat_ofNat, Nat.mod_eq_of_lt (wordAt_lt _ _), leBytes_wordAt,
      List.getD_eq_getElem?_getD, List.getElem?_map, List.getElem?_range hk, Option.map_some,
      Option.getD_some, address_eq]
  · rename_i hnone
    have hcovers : ¬s.Covers a := by
      intro hcovers
      refine hnone ⟨hbase, List.any_eq_true.mpr ⟨a.toNat % 8, List.mem_range.mpr hk, ?_⟩⟩
      rw [address_eq]
      exact decide_eq_true hcovers
    rw [ByteMemory.write_of_not_covers hcovers]
    rfl

end Store

theorem bytes_stores (vm : Vmm) (ss : List (Store 64)) :
    (vm.stores ss).bytes = vm.bytes.writes ss := by
  induction ss generalizing vm with
  | nil => rfl
  | cons s rest ih =>
    refine (ih (vm.store s)).trans ?_
    rw [bytes_store]
    rfl

section Stores

variable (vm : Vmm) (ss : List (Store 64))

@[simp] theorem stores_heap : (vm.stores ss).heap = vm.heap := by
  induction ss generalizing vm with
  | nil => rfl
  | cons s rest ih => exact ih (vm.store s)

@[simp] theorem stores_kernelPml4 : (vm.stores ss).kernelPml4 = vm.kernelPml4 := by
  induction ss generalizing vm with
  | nil => rfl
  | cons s rest ih => exact ih (vm.store s)

theorem mem_stores {t : BitVec 64} (h : ∀ s ∈ ss, ∀ a, s.Covers a → pageBase a ≠ t) :
    (vm.stores ss).mem t = vm.mem t := by
  induction ss generalizing vm with
  | nil => rfl
  | cons s rest ih =>
    rw [List.forall_mem_cons] at h
    exact (ih (vm.store s) h.2).trans (mem_store vm s h.1)

end Stores

theorem bytes_congr {vm vm' : Vmm} {a : BitVec 64} (h : vm'.mem (pageBase a) = vm.mem (pageBase a)) :
    vm'.bytes a = vm.bytes a := by
  unfold Vmm.bytes
  rw [h]

namespace AddressSpaces

/-- A store that touches no user table. -/
def KeepsOff (level : BitVec 64 → Nat) (s : Store 64) : Prop :=
  ∀ a, s.Covers a → level (pageBase a) = 0

section

variable {vm vm' : Vmm} {roots : List (BitVec 64)} {level : BitVec 64 → Nat}

/-- Separation is a matter of the tables alone. -/
theorem Separated.of_tables (sep : Separated vm roots level)
    (hkernel : vm'.kernelPml4 = vm.kernelPml4) (hheap : vm'.heap = vm.heap)
    (hmem : ∀ t, level t ≠ 0 → vm'.mem t = vm.mem t) : Separated vm' roots level where
  forest := sep.forest.prune fun t i u hlinks hchild => by
    have hpos := hlinks.1
    rwa [Vmm.child, hmem t (by omega)] at hchild
  tables := sep.tables
  root := sep.root
  kernel := hkernel ▸ sep.kernel
  fresh := hheap ▸ sep.fresh
  distinct := hheap ▸ sep.distinct
  shared r hr i hi := by
    have hroot : ∀ r ∈ roots, level r ≠ 0 := fun r hr h => by
      have := sep.root r hr
      omega
    rw [hkernel, hmem r (hroot r hr), hmem _ (hroot _ sep.kernel)]
    exact sep.shared r hr i hi

variable {cr3 virt : BitVec 64}

theorem translate_of_tables (sep : Separated vm roots level)
    (hkernel : vm'.kernelPml4 = vm.kernelPml4) (hheap : vm'.heap = vm.heap)
    (hmem : ∀ t, level t ≠ 0 → vm'.mem t = vm.mem t) (hroot : cr3 &&& addrMask ∈ roots)
    (huser : UserAddress virt) : vm'.translate cr3 virt = vm.translate cr3 virt := by
  have sep' := sep.of_tables hkernel hheap hmem
  have hslot : slot vm'.child (cr3 &&& addrMask) (path virt) =
      slot vm.child (cr3 &&& addrMask) (path virt) := by
    refine slot_congr sep.forest ?_ (sep.fits hroot huser)
    intro t i hlinks
    have hpos := hlinks.1
    rw [Vmm.child, Vmm.child, hmem t (by omega)]
  rw [sep'.translate_eq hroot huser, sep.translate_eq hroot huser, hslot]
  cases hleaf : slot vm.child (cr3 &&& addrMask) (path virt) with
  | none => rfl
  | some leaf =>
    have hlevel := level_of_slot sep.forest (sep.fits hroot huser) hleaf
    rw [Option.bind_some, Option.bind_some, Vmm.leaf, Vmm.leaf, Vmm.child, Vmm.child,
      hmem leaf.1 (by omega)]

variable {ss : List (Store 64)} (hss : ∀ s ∈ ss, KeepsOff level s)
include hss

theorem mem_stores_table (vm : Vmm) {t : BitVec 64} (ht : level t ≠ 0) :
    (vm.stores ss).mem t = vm.mem t := by
  refine mem_stores vm ss ?_
  rintro s hs a hcovers rfl
  exact ht (hss s hs a hcovers)

theorem Separated.stores (sep : Separated vm roots level) : Separated (vm.stores ss) roots level :=
  sep.of_tables (stores_kernelPml4 vm ss) (stores_heap vm ss) fun _ => mem_stores_table hss vm

theorem translate_stores (sep : Separated vm roots level) (hroot : cr3 &&& addrMask ∈ roots)
    (huser : UserAddress virt) : (vm.stores ss).translate cr3 virt = vm.translate cr3 virt :=
  translate_of_tables sep (stores_kernelPml4 vm ss) (stores_heap vm ss)
    (fun _ => mem_stores_table hss vm) hroot huser

end

end AddressSpaces

end KazuOS.Memory
