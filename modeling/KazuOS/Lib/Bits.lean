import Mathlib.Data.Nat.Bitwise
import Mathlib.Tactic.Ring

/-! Single bits of machine words, and counting over an initial segment of the
naturals: the arithmetic under a bitmap. -/
namespace KazuOS.Lib

theorem shiftRight_and_one_ne_zero (word : BitVec w) (bit : Nat) (hw : 0 < w) :
    ((word >>> bit) &&& 1#w != 0#w) = word.getLsbD bit := by
  rw [BitVec.and_one_eq_setWidth_ofBool_getLsbD, BitVec.getLsbD_ushiftRight, Nat.add_zero]
  cases word.getLsbD bit
  · simp
  · have hone : BitVec.setWidth w 1#1 ≠ 0#w := by
      intro h
      have hval := congrArg BitVec.toNat h
      simp [Nat.mod_eq_of_lt (Nat.one_lt_two_pow hw.ne')] at hval
    simpa using hone

theorem getLsbD_one_shiftLeft (bit probe : Nat) (hprobe : probe < w) :
    (1#w <<< bit).getLsbD probe = decide (probe = bit) := by
  rw [BitVec.getLsbD_shiftLeft]
  by_cases h : probe = bit
  · subst h
    simp [hprobe, Nat.zero_lt_of_lt hprobe]
  · by_cases hlt : probe < bit
    · simp [hprobe, hlt, h]
    · have : probe - bit ≠ 0 := by omega
      simp [hprobe, hlt, h, this]

/-- Changing a predicate at one point of an initial segment moves its count by
that point alone. -/
theorem countP_range_update (p q : Nat → Bool) (point bound : Nat) (hpoint : point < bound)
    (agree : ∀ n, n ≠ point → q n = p n) :
    (List.range bound).countP q + (p point).toNat =
      (List.range bound).countP p + (q point).toNat := by
  induction bound with
  | zero => omega
  | succ bound ih =>
    rw [List.range_succ, List.countP_append, List.countP_append, List.countP_singleton,
      List.countP_singleton]
    by_cases h : point = bound
    · subst h
      have hbelow : (List.range point).countP q = (List.range point).countP p := by
        apply List.countP_congr
        intro n hn
        rw [agree n (by have := List.mem_range.mp hn; omega)]
      rw [hbelow]
      cases p point <;> cases q point <;> simp
    · have := ih (by omega)
      rw [agree bound (Ne.symm h)]
      omega

/-- Masking the low bits away rounds down to a multiple of the power of two. -/
theorem and_high_bits {x k : Nat} (hx : x < 2 ^ 64) (hk : k ≤ 64) :
    x &&& (2 ^ 64 - 1 - (2 ^ k - 1)) = x / 2 ^ k * 2 ^ k := by
  have hpow : 2 ^ k ≤ 2 ^ 64 := Nat.pow_le_pow_right (by decide) hk
  have hpos : 0 < 2 ^ k := Nat.two_pow_pos k
  have hmask : 2 ^ 64 - 1 - (2 ^ k - 1) = 2 ^ 64 - (2 ^ k - 1 + 1) := by omega
  apply Nat.eq_of_testBit_eq
  intro i
  rw [← Nat.shiftRight_eq_div_pow, ← Nat.shiftLeft_eq, hmask, Nat.testBit_and,
    Nat.testBit_two_pow_sub_succ (by omega), Nat.testBit_two_pow_sub_one, Nat.testBit_shiftLeft,
    Nat.testBit_shiftRight]
  by_cases hi : k ≤ i
  · have hlt : ¬i < k := by omega
    rw [Nat.add_sub_cancel' hi]
    by_cases hwidth : i < 64
    · simp [hi, hlt, hwidth]
    · have hzero : x.testBit i = false :=
        Nat.testBit_lt_two_pow (Nat.lt_of_lt_of_le hx (Nat.pow_le_pow_right (by decide) (by omega)))
      simp [hzero]
  · have hlt : i < k := by omega
    simp [hi, hlt]

end KazuOS.Lib
