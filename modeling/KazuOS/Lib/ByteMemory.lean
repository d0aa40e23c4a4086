import KazuOS.Lib.Bytes
import Mathlib.Data.List.Pairwise

/-! Memory as bytes at addresses that wrap around, and runs of stores. Stores that keep apart
can all be read back at the end, whatever their order. -/
namespace KazuOS.Lib

abbrev ByteMemory (w : Nat) := BitVec w → UInt8

/-- Bytes for consecutive addresses. -/
structure Store (w : Nat) where
  addr : BitVec w
  bytes : List UInt8
  deriving DecidableEq, Repr

namespace Store

variable {w : Nat}

def Covers (s : Store w) (a : BitVec w) : Prop := (a - s.addr).toNat < s.bytes.length

/-- The same bytes at addresses that are higher by a constant. -/
def shift (p : BitVec w) (s : Store w) : Store w := ⟨p + s.addr, s.bytes⟩

instance (s : Store w) (a : BitVec w) : Decidable (s.Covers a) :=
  inferInstanceAs (Decidable (_ < _))

def Apart (s t : Store w) : Prop := ∀ a, s.Covers a → ¬t.Covers a

variable {s t : Store w}

theorem Apart.symm (h : s.Apart t) : t.Apart s := fun a ht hs => h a hs ht

/-- The addresses of a store, counted from a base below it. -/
theorem covers_iff {s : Store w} {base a : BitVec w} {o : Nat}
    (haddr : s.addr = base + BitVec.ofNat w o) (h : o + s.bytes.length ≤ 2 ^ w) :
    s.Covers a ↔ o ≤ (a - base).toNat ∧ (a - base).toNat < o + s.bytes.length := by
  have hlt := (a - base).isLt
  rw [Covers, haddr, ← BitVec.sub_sub]
  generalize a - base = x at hlt ⊢
  by_cases hwhole : o = 2 ^ w
  · rw [show s.bytes.length = 0 by omega]
    omega
  rw [BitVec.toNat_sub, BitVec.toNat_ofNat, Nat.mod_eq_of_lt (by omega : o < 2 ^ w)]
  by_cases hle : o ≤ x.toNat
  · rw [show 2 ^ w - o + x.toNat = x.toNat - o + 2 ^ w by omega, Nat.add_mod_right,
      Nat.mod_eq_of_lt (by omega)]
    omega
  · rw [Nat.mod_eq_of_lt (by omega)]
    omega

/-- Of two stores above one base, the first ends before the second begins. -/
theorem apart_of_le {base : BitVec w} {o o' : Nat}
    (hs : s.addr = base + BitVec.ofNat w o) (ht : t.addr = base + BitVec.ofNat w o')
    (hle : o + s.bytes.length ≤ o') (h : o' + t.bytes.length ≤ 2 ^ w) : s.Apart t := by
  intro a hcovers hcovers'
  rw [covers_iff hs (by omega)] at hcovers
  rw [covers_iff ht h] at hcovers'
  omega

end Store

namespace ByteMemory

variable {w : Nat}

def write (m : ByteMemory w) (s : Store w) : ByteMemory w :=
  fun a => (s.bytes[(a - s.addr).toNat]?).getD (m a)

def writes (m : ByteMemory w) (stores : List (Store w)) : ByteMemory w := stores.foldl write m

/-- The bytes of a store stand at its addresses. -/
def Holds (m : ByteMemory w) (s : Store w) : Prop :=
  ∀ a b, s.bytes[(a - s.addr).toNat]? = some b → m a = b

variable {m : ByteMemory w} {s : Store w}

variable {stores : List (Store w)} {a : BitVec w}

theorem write_of_not_covers (h : ¬s.Covers a) : m.write s a = m a := by
  rw [write, List.getElem?_eq_none (Nat.not_lt.mp h)]
  rfl

theorem holds_write (m : ByteMemory w) (s : Store w) : (m.write s).Holds s := by
  intro a b hb
  rw [write, hb]
  rfl

theorem Holds.write {s t : Store w} (h : m.Holds s) (hapart : s.Apart t) : (m.write t).Holds s := by
  intro a b hb
  have hcovers : s.Covers a := (List.getElem?_eq_some_iff.mp hb).1
  rw [write_of_not_covers (hapart a hcovers)]
  exact h a b hb

theorem Holds.writes (h : m.Holds s)
    (hapart : ∀ t ∈ stores, s.Apart t) : (m.writes stores).Holds s := by
  induction stores generalizing m with
  | nil => exact h
  | cons t rest ih =>
    rw [List.forall_mem_cons] at hapart
    exact ih (h.write hapart.1) hapart.2

theorem holds_writes (m : ByteMemory w)
    (hapart : stores.Pairwise Store.Apart) : ∀ s ∈ stores, (m.writes stores).Holds s := by
  induction stores generalizing m with
  | nil => exact fun s hs => absurd hs List.not_mem_nil
  | cons s rest ih =>
    rw [List.pairwise_cons] at hapart
    rw [List.forall_mem_cons]
    exact ⟨(holds_write m s).writes hapart.1, ih (m.write s) hapart.2⟩

/-- A byte after a run of stores depends on what the byte was before. -/
theorem writes_congr {m m' : ByteMemory w} (h : m a = m' a) (stores : List (Store w)) :
    m.writes stores a = m'.writes stores a := by
  induction stores generalizing m m' with
  | nil => exact h
  | cons s rest ih =>
    apply ih
    rw [write, write, h]

theorem writes_shift (m : ByteMemory w) (p x : BitVec w) (stores : List (Store w)) :
    m.writes (stores.map (Store.shift p)) (p + x) = writes (fun y => m (p + y)) stores x := by
  induction stores generalizing m with
  | nil => rfl
  | cons s rest ih =>
    refine (ih (m.write (s.shift p))).trans (writes_congr ?_ rest)
    have hoffset : p + x - (p + s.addr) = x - s.addr := add_sub_add_left_eq_sub x s.addr p
    rw [write, write, Store.shift, hoffset]

/-- What is held is read behind the first address. -/
theorem Holds.get (h : m.Holds s) (hlength : s.bytes.length ≤ 2 ^ w)
    {i : Nat} {b : UInt8} (hi : s.bytes[i]? = some b) : m (s.addr + BitVec.ofNat w i) = b := by
  have hlt : i < s.bytes.length := (List.getElem?_eq_some_iff.mp hi).1
  refine h _ b ?_
  rwa [add_comm, BitVec.add_sub_cancel, BitVec.toNat_ofNat, Nat.mod_eq_of_lt (by omega)]

end ByteMemory

/-! Words of 64 bits, lowest byte first. -/

def wordStore (addr value : BitVec 64) : Store 64 := ⟨addr, leBytes 8 value.toNat⟩

/-- The word at an address. -/
def wordAt (m : ByteMemory 64) (a : BitVec 64) : Nat :=
  ofLeBytes ((List.range 8).map fun k => m (a + BitVec.ofNat 64 k))

theorem wordAt_lt (m : ByteMemory 64) (a : BitVec 64) : wordAt m a < 2 ^ 64 := by
  have hlt := ofLeBytes_lt ((List.range 8).map fun k => m (a + BitVec.ofNat 64 k))
  simp only [List.length_map, List.length_range] at hlt
  exact hlt

theorem leBytes_wordAt (m : ByteMemory 64) (a : BitVec 64) :
    leBytes 8 (wordAt m a) = (List.range 8).map fun k => m (a + BitVec.ofNat 64 k) := by
  have hbytes := leBytes_ofLeBytes ((List.range 8).map fun k => m (a + BitVec.ofNat 64 k))
  simp only [List.length_map, List.length_range] at hbytes
  exact hbytes

theorem wordAt_of_holds {m : ByteMemory 64} {a value : BitVec 64}
    (h : m.Holds (wordStore a value)) : wordAt m a = value.toNat := by
  have hbytes : (List.range 8).map (fun k => m (a + BitVec.ofNat 64 k)) = leBytes 8 value.toNat := by
    apply List.ext_getElem
    · simp
    · intro k hk hk'
      rw [List.getElem_map, List.getElem_range]
      exact h.get (by simp [wordStore]) (List.getElem?_eq_getElem hk')
  rw [wordAt, hbytes, ofLeBytes_leBytes value.isLt]

end KazuOS.Lib
