import Mathlib.Data.UInt

/-! Byte strings: little-endian numbers of a fixed width, and parts of a string. -/
namespace KazuOS.Lib

def leBytes : Nat → Nat → List UInt8
  | 0, _ => []
  | width + 1, value => UInt8.ofNat value :: leBytes width (value / 256)

def ofLeBytes : List UInt8 → Nat
  | [] => 0
  | b :: rest => b.toNat + 256 * ofLeBytes rest

@[simp] theorem length_leBytes (width value : Nat) : (leBytes width value).length = width := by
  induction width generalizing value with
  | zero => rfl
  | succ width ih => simp [leBytes, ih]

theorem ofLeBytes_leBytes {width value : Nat} (h : value < 256 ^ width) :
    ofLeBytes (leBytes width value) = value := by
  induction width generalizing value with
  | zero =>
    have hzero : value = 0 := by simpa using h
    rw [hzero]
    rfl
  | succ width ih =>
    have hrest : value / 256 < 256 ^ width := by
      rw [Nat.pow_succ] at h
      exact Nat.div_lt_of_lt_mul (by omega)
    rw [leBytes, ofLeBytes, ih hrest, UInt8.toNat_ofNat']
    omega

theorem ofLeBytes_lt (bytes : List UInt8) : ofLeBytes bytes < 256 ^ bytes.length := by
  induction bytes with
  | nil => exact Nat.one_pos
  | cons b rest ih =>
    have hb := b.toNat_lt
    rw [ofLeBytes, List.length_cons, Nat.pow_succ]
    omega

theorem leBytes_ofLeBytes (bytes : List UInt8) :
    leBytes bytes.length (ofLeBytes bytes) = bytes := by
  induction bytes with
  | nil => rfl
  | cons b rest ih =>
    have hb := b.toNat_lt
    have hdiv : (b.toNat + 256 * ofLeBytes rest) / 256 = ofLeBytes rest := by omega
    have hhead : UInt8.ofNat (b.toNat + 256 * ofLeBytes rest) = b := by
      apply UInt8.toNat.inj
      rw [UInt8.toNat_ofNat']
      omega
    rw [List.length_cons, ofLeBytes, leBytes, hdiv, hhead, ih]

/-- The bytes from one offset up to another, if the string has them. -/
def slice (data : List UInt8) (start stop : Nat) : Option (List UInt8) :=
  if start ≤ stop ∧ stop ≤ data.length then some ((data.drop start).take (stop - start)) else none

/-- Overwrite the bytes from an offset on, if the string has them. -/
def overwrite (data : List UInt8) (start : Nat) (src : List UInt8) : Option (List UInt8) :=
  if start + src.length ≤ data.length then
    some (data.take start ++ src ++ data.drop (start + src.length))
  else none

theorem overwrite_of_parts {before mid after src : List UInt8} {start : Nat}
    (hstart : start = before.length) (hlength : mid.length = src.length) :
    overwrite (before ++ (mid ++ after)) start src = some (before ++ (src ++ after)) := by
  have hfits : start + src.length ≤ (before ++ (mid ++ after)).length := by
    simp only [List.length_append]
    omega
  rw [overwrite, if_pos hfits, hstart, List.take_left, ← List.append_assoc before mid after,
    ← hlength, ← List.length_append, List.drop_left, List.append_assoc]

end KazuOS.Lib
