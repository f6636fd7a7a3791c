import Mathlib.Data.Int.Log
import Mathlib.Data.Rat.Floor

/-!
# Doubles

The value of the double nearest to a number, as a rational. Signed zeros, subnormal numbers and
overflow are left out: the numbers read here lie far inside the normal range, or are zero.
-/

namespace SystemsLab

/-- The nearest integer, an even one if two are equally near. -/
def roundHalfEven (q : ℚ) : ℤ :=
  let rest := q - ⌊q⌋
  if rest < 1/2 then ⌊q⌋
  else if 1/2 < rest then ⌊q⌋ + 1
  else if ⌊q⌋ % 2 = 0 then ⌊q⌋ else ⌊q⌋ + 1

/-- The nearest number with a significand of 53 bits. -/
def toDouble (q : ℚ) : ℚ :=
  if q = 0 then 0
  else
    let exponent := Int.log 2 |q| - 52
    roundHalfEven (q / 2 ^ exponent) * 2 ^ exponent

theorem roundHalfEven_intCast (n : ℤ) : roundHalfEven n = n := by
  have hrest : (n : ℚ) - ⌊(n : ℚ)⌋ < 1/2 := by
    rw [Int.floor_intCast,sub_self]
    norm_num
  unfold roundHalfEven
  rw [if_pos hrest,Int.floor_intCast]

theorem toDouble_intCast {n : ℤ} (hn : |n| < 2 ^ 53) : toDouble n = n := by
  unfold toDouble
  by_cases hzero : (n : ℚ) = 0
  · rw [if_pos hzero,hzero]
  rw [if_neg hzero]
  dsimp only
  have hbound : |(n : ℚ)| < ((2 : ℕ) : ℚ) ^ (53 : ℤ) := by
    rw [← Int.cast_abs]
    exact_mod_cast hn
  have hlog : Int.log 2 |(n : ℚ)| < 53 :=
    (Int.lt_zpow_iff_log_lt (by decide) (abs_pos.mpr hzero)).mp hbound
  obtain ⟨k,hk⟩ := Int.eq_ofNat_of_zero_le (show 0 ≤ -(Int.log 2 |(n : ℚ)| - 52) by omega)
  have hscaled : (n : ℚ) / 2 ^ (Int.log 2 |(n : ℚ)| - 52) = ((n * 2 ^ k : ℤ) : ℚ) := by
    rw [div_eq_mul_inv,← zpow_neg,hk]
    push_cast
    rw [zpow_natCast]
  have hpower : (2 : ℚ) ^ (Int.log 2 |(n : ℚ)| - 52) ≠ 0 := zpow_ne_zero _ two_ne_zero
  rw [hscaled,roundHalfEven_intCast,← hscaled,div_mul_cancel₀ _ hpower]

/-- How far a double lies above the number it stands for. -/
def roundingError (q : ℚ) : ℚ := toDouble q - q

theorem roundingError_intCast {n : ℤ} (hn : |n| < 2 ^ 53) : roundingError n = 0 := by
  rw [roundingError,toDouble_intCast hn,sub_self]

example : toDouble (2 ^ 53 + 1) = 2 ^ 53 := by decide +kernel

end SystemsLab
