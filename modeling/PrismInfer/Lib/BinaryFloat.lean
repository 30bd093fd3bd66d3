import Mathlib.Data.Int.Log
import Mathlib.Tactic

/-!
# Rounding to a binary floating-point format

A format has `p` significant bits and least exponent `emin`; its values are `m * 2 ^ e` with
`|m| < 2 ^ p` and `emin ≤ e`. Rounding to nearest, ties to even, leaves them alone.
-/
namespace BinaryFloat

/-- The nearest integer, the even one of two. -/
def roundHalfEven (x : ℚ) : ℤ :=
  let below := ⌊x⌋
  if x - below < 1 / 2 then below
  else if 1 / 2 < x - below then below + 1
  else if below % 2 = 0 then below else below + 1

/-- `x` rounded to `p` significant bits, no finer than `2 ^ emin`. -/
def round (p : ℕ) (emin : ℤ) (x : ℚ) : ℚ :=
  if x = 0 then 0
  else
    let unit : ℚ := 2 ^ max (Int.log 2 |x| + 1 - p) emin
    roundHalfEven (x / unit) * unit

/-- `x` is a value of the format. -/
def Representable (p : ℕ) (emin : ℤ) (x : ℚ) : Prop :=
  ∃ (m e : ℤ), emin ≤ e ∧ |m| < 2 ^ p ∧ x = m * 2 ^ e

@[simp] theorem roundHalfEven_intCast (k : ℤ) : roundHalfEven k = k := by
  unfold roundHalfEven
  rw [Int.floor_intCast]
  simp only
  rw [sub_self, if_pos (by norm_num)]

theorem roundHalfEven_le {x : ℚ} {n : ℤ} (h : x ≤ n) : roundHalfEven x ≤ n := by
  have hfloor : ⌊x⌋ ≤ n := by exact_mod_cast (Int.floor_le x).trans h
  unfold roundHalfEven
  rcases hfloor.eq_or_lt with heq | hlt
  · have hexact : x - (⌊x⌋ : ℚ) < 1 / 2 := by
      rw [heq]
      linarith
    simp only
    rw [if_pos hexact]
    exact hfloor
  · simp only
    split
    · omega
    · split
      · omega
      · split <;> omega

variable {p : ℕ} {emin : ℤ}

/-- A value of the format is a multiple of the unit it is rounded to. -/
theorem Representable.exists_multiple {x : ℚ} (h : Representable p emin x) (hx : x ≠ 0) :
    ∃ k : ℤ, x = k * 2 ^ max (Int.log 2 |x| + 1 - p) emin := by
  obtain ⟨m, e, hemin, hm, rfl⟩ := h
  set unit := max (Int.log 2 |(m : ℚ) * 2 ^ e| + 1 - p) emin with hunit
  by_cases hfine : unit ≤ e
  · refine ⟨m * 2 ^ (e - unit).toNat, ?_⟩
    have hpow : ((2 : ℚ) ^ (e - unit).toNat) * 2 ^ unit = 2 ^ e := by
      rw [← zpow_natCast, ← zpow_add₀ (by norm_num : (2 : ℚ) ≠ 0), Int.toNat_of_nonneg (by omega)]
      congr 1
      omega
    push_cast
    rw [mul_assoc, hpow]
  · -- the leading bit would stand above the significand
    exfalso
    have habs : 0 < |(m : ℚ) * 2 ^ e| := abs_pos.mpr hx
    have hlead := Int.zpow_log_le_self (b := 2) (by norm_num) habs
    have hbelow : (2 : ℚ) ^ (e + p) ≤ 2 ^ Int.log 2 |(m : ℚ) * 2 ^ e| :=
      zpow_le_zpow_right₀ (by norm_num) (by omega)
    have hupper : |(m : ℚ) * 2 ^ e| < 2 ^ (e + p) := by
      have hm : |(m : ℚ)| < 2 ^ p := by exact_mod_cast hm
      rw [abs_mul, abs_of_pos (zpow_pos (by norm_num : (0 : ℚ) < 2) e),
        zpow_add₀ (by norm_num : (2 : ℚ) ≠ 0), zpow_natCast, mul_comm]
      exact mul_lt_mul_of_pos_left hm (zpow_pos (by norm_num) e)
    have hlead : (2 : ℚ) ^ Int.log 2 |(m : ℚ) * 2 ^ e| ≤ |(m : ℚ) * 2 ^ e| := by
      exact_mod_cast hlead
    exact absurd (hbelow.trans hlead) (not_le.mpr hupper)

theorem round_of_representable {x : ℚ} (h : Representable p emin x) : round p emin x = x := by
  unfold round
  by_cases hx : x = 0
  · rw [if_pos hx, hx]
  · obtain ⟨k, hk⟩ := h.exists_multiple hx
    have hunit : (2 : ℚ) ^ max (Int.log 2 |x| + 1 - p) emin ≠ 0 := zpow_ne_zero _ (by norm_num)
    rw [if_neg hx]
    simp only
    have hquotient : x / 2 ^ max (Int.log 2 |x| + 1 - p) emin = (k : ℚ) := by
      rw [div_eq_iff hunit]
      exact hk
    rw [hquotient, roundHalfEven_intCast]
    exact hk.symm

/-- Rounding does not pass a value of the format. -/
theorem round_le {x y : ℚ} (hx : 0 ≤ x) (h : x ≤ y) (hy : Representable p emin y) :
    round p emin x ≤ y := by
  unfold round
  by_cases hzero : x = 0
  · rw [if_pos hzero]
    exact hx.trans h
  · have hpos : 0 < x := lt_of_le_of_ne hx (Ne.symm hzero)
    have hypos : 0 < y := hpos.trans_le h
    obtain ⟨k, hk⟩ := hy.exists_multiple hypos.ne'
    rw [if_neg hzero]
    simp only
    set fine := max (Int.log 2 |x| + 1 - p) emin with hfine
    set coarse := max (Int.log 2 |y| + 1 - p) emin with hcoarse
    have hunit : (0 : ℚ) < 2 ^ fine := zpow_pos (by norm_num) _
    -- the unit of the larger number is a multiple of the smaller one's
    have hle : fine ≤ coarse := by
      have hlog : Int.log 2 |x| ≤ Int.log 2 |y| := by
        apply Int.log_mono_right (abs_pos.mpr hzero)
        rwa [abs_of_pos hpos, abs_of_pos hypos]
      omega
    have hmultiple : y = (k * 2 ^ (coarse - fine).toNat : ℤ) * 2 ^ fine := by
      have hpow : ((2 : ℚ) ^ (coarse - fine).toNat) * 2 ^ fine = 2 ^ coarse := by
        rw [← zpow_natCast, ← zpow_add₀ (by norm_num : (2 : ℚ) ≠ 0),
          Int.toNat_of_nonneg (by omega)]
        congr 1
        omega
      push_cast
      rw [mul_assoc, hpow]
      exact hk
    have hquotient : x / 2 ^ fine ≤ (k * 2 ^ (coarse - fine).toNat : ℤ) := by
      rw [div_le_iff₀ hunit, ← hmultiple]
      exact h
    have hrounded := roundHalfEven_le hquotient
    rw [hmultiple]
    apply mul_le_mul_of_nonneg_right _ hunit.le
    exact_mod_cast hrounded

/-- Natural numbers below `2 ^ p` are values of the format. -/
theorem representable_natCast {n : ℕ} (h : n < 2 ^ p) (hemin : emin ≤ 0) :
    Representable p emin n :=
  ⟨n, 0, hemin, by rw [Nat.abs_cast]; exact_mod_cast h, by simp⟩

end BinaryFloat
