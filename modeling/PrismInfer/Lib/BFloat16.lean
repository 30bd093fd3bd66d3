import Mathlib.Tactic

/-!
# BF16 values and their order

A BF16 bit pattern has a sign, eight exponent bits and seven fraction bits. The magnitude bits
grow with the magnitude, so flipping the sign bit of a positive and all bits of a negative
pattern gives an unsigned number in the order of the values.
-/
namespace BFloat16

/-- Magnitude in units of the least subnormal, by the low fifteen bits. -/
def scaledMagnitude (m : ℕ) : ℕ :=
  if m / 128 = 0 then m % 128 else (128 + m % 128) * 2 ^ (m / 128 - 1)

/-- Sign bit. -/
def Negative (bits : BitVec 16) : Prop := 32768 ≤ bits.toNat

instance (bits : BitVec 16) : Decidable (Negative bits) := inferInstanceAs (Decidable (_ ≤ _))

/-- The exponent field is not all ones. -/
def Finite (bits : BitVec 16) : Prop := bits.toNat % 32768 / 128 ≠ 255

instance (bits : BitVec 16) : Decidable (Finite bits) := inferInstanceAs (Decidable (_ ≠ _))

/-- The number a finite pattern stands for. -/
def value (bits : BitVec 16) : ℚ :=
  (if Negative bits then -1 else 1) * (scaledMagnitude (bits.toNat % 32768) * 2 ^ (-133 : ℤ))

/-- Bit pattern of `-inf`. -/
def negInf : BitVec 16 := 0xFF80#16

/-- The place of a pattern in the order. -/
def place (bits : BitVec 16) : ℕ :=
  if Negative bits then 65535 - bits.toNat else bits.toNat + 32768

theorem scaledMagnitude_strictMono : StrictMono scaledMagnitude := by
  apply strictMono_nat_of_lt_succ
  intro m
  have hpow : 2 ^ (m / 128 - 1) * (if m / 128 = 0 then 1 else 2) = 2 ^ (m / 128) := by
    by_cases hzero : m / 128 = 0
    · rw [if_pos hzero, hzero]
      rfl
    · rw [if_neg hzero, ← Nat.pow_succ]
      congr 1
      omega
  have hunit : 0 < 2 ^ (m / 128 - 1) := Nat.two_pow_pos _
  unfold scaledMagnitude
  by_cases hlast : m % 128 = 127
  · have hdiv : (m + 1) / 128 = m / 128 + 1 := by omega
    have hmod : (m + 1) % 128 = 0 := by omega
    rw [hdiv, hmod, hlast, if_neg (Nat.succ_ne_zero _), Nat.add_sub_cancel]
    by_cases hzero : m / 128 = 0
    · rw [if_pos hzero, hzero]
      decide
    · rw [if_neg hzero] at hpow ⊢
      omega
  · have hdiv : (m + 1) / 128 = m / 128 := by omega
    have hmod : (m + 1) % 128 = m % 128 + 1 := by omega
    rw [hdiv, hmod]
    by_cases hzero : m / 128 = 0
    · rw [if_pos hzero, if_pos hzero]
      omega
    · rw [if_neg hzero, if_neg hzero]
      exact Nat.mul_lt_mul_of_pos_right (by omega) hunit

/-- A greater value has a greater place. -/
theorem place_lt_of_value_lt {a b : BitVec 16} (h : value a < value b) : place a < place b := by
  have ha := a.isLt
  have hb := b.isLt
  have hunit : (0 : ℚ) < 2 ^ (-133 : ℤ) := by positivity
  have hmagA : (0 : ℚ) ≤ scaledMagnitude (a.toNat % 32768) * 2 ^ (-133 : ℤ) := by positivity
  have hmagB : (0 : ℚ) ≤ scaledMagnitude (b.toNat % 32768) * 2 ^ (-133 : ℤ) := by positivity
  unfold value at h
  unfold place
  by_cases hna : Negative a <;> by_cases hnb : Negative b
  · rw [if_pos hna, if_pos hnb] at h ⊢
    have hmag : (scaledMagnitude (b.toNat % 32768) : ℚ) < scaledMagnitude (a.toNat % 32768) := by
      nlinarith
    have hlt := scaledMagnitude_strictMono.lt_iff_lt.mp (Nat.cast_lt.mp hmag)
    unfold Negative at hna hnb
    omega
  · rw [if_pos hna, if_neg hnb]
    unfold Negative at hna
    omega
  · rw [if_neg hna, if_pos hnb] at h
    linarith
  · rw [if_neg hna, if_neg hnb] at h ⊢
    have hmag : (scaledMagnitude (a.toNat % 32768) : ℚ) < scaledMagnitude (b.toNat % 32768) := by
      nlinarith
    have hlt := scaledMagnitude_strictMono.lt_iff_lt.mp (Nat.cast_lt.mp hmag)
    unfold Negative at hna hnb
    omega

theorem value_le_of_place_le {a b : BitVec 16} (h : place a ≤ place b) : value a ≤ value b :=
  not_lt.mp fun hlt => absurd (place_lt_of_value_lt hlt) (not_lt.mpr h)

theorem place_negInf : place negInf = 127 := by decide

/-- Every finite value comes behind `-inf`. -/
theorem lt_place_of_finite {bits : BitVec 16} (h : Finite bits) : 127 < place bits := by
  have hlt := bits.isLt
  unfold Finite at h
  unfold place
  by_cases hnegative : Negative bits
  · rw [if_pos hnegative]
    unfold Negative at hnegative
    omega
  · rw [if_neg hnegative]
    omega

end BFloat16
