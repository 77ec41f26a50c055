import Mathlib.Data.Int.Log
import Mathlib.Data.Rat.Floor
import Mathlib.Tactic.Linarith
import Mathlib.Tactic.Positivity
import Mathlib.Tactic.Ring

/-!
# Rounding to a precision

A floating-point operation rounds its exact result to the nearest number with so many significant
binary digits, and to the one with an even last digit where two are as near (`toPrecision`). Where
exponents have no bounds, or none is reached, this is all that the operation does. Its error is at
most half a unit in the last digit (`abs_toPrecision_sub_le`), so that a quotient of which one side
has been rounded before is known up to the errors of the two (`toPrecision_div_le`).
-/

namespace Rockling

section

variable {K : Type*} [Field K] [LinearOrder K] [IsStrictOrderedRing K] [FloorRing K]

/-- The nearest integer, or the even one of two. -/
def nearestEven (x : K) : ℤ :=
  if Int.fract x < 1 - Int.fract x then ⌊x⌋
  else if 1 - Int.fract x < Int.fract x then ⌊x⌋ + 1
  else if Even ⌊x⌋ then ⌊x⌋
  else ⌊x⌋ + 1

/-- The value of the last of `prec` significant digits of `x`. -/
def lastDigit (prec : ℕ) (x : K) : K := ((2 : ℕ) : K) ^ (Int.log 2 |x| + 1 - prec)

/-- `x` with `prec` significant digits. -/
def toPrecision (prec : ℕ) (x : K) : K := nearestEven (x / lastDigit prec x) * lastDigit prec x

theorem abs_nearestEven_sub_le (x : K) : |nearestEven x - x| ≤ 1 / 2 := by
  have split := Int.floor_add_fract x
  have low := Int.fract_nonneg x
  have high := Int.fract_lt_one x
  rw [nearestEven, abs_le]
  split_ifs
  all_goals
    push_cast
    constructor <;> linarith

theorem lastDigit_pos (prec : ℕ) (x : K) : 0 < lastDigit prec x := by
  unfold lastDigit
  exact zpow_pos (Nat.cast_pos.mpr two_pos) _

/-- Half of the last digit is a small part of the whole. -/
theorem half_lastDigit_le (prec : ℕ) {x : K} (nonzero : x ≠ 0) :
    lastDigit prec x / 2 ≤ |x| / 2 ^ prec := by
  have log := Int.zpow_log_le_self (b := 2) (r := |x|) (by norm_num) (abs_pos.mpr nonzero)
  calc lastDigit prec x / 2
      = 2 ^ Int.log 2 |x| / 2 ^ prec := by
        rw [lastDigit, Nat.cast_ofNat, zpow_sub₀ two_ne_zero, zpow_add_one₀ two_ne_zero,
          zpow_natCast]
        ring
    _ ≤ |x| / 2 ^ prec := by
        gcongr
        exact_mod_cast log

/-- **The error of rounding.** -/
theorem abs_toPrecision_sub_le (prec : ℕ) (x : K) :
    |toPrecision prec x - x| ≤ |x| / 2 ^ prec := by
  by_cases zero : x = 0
  · subst zero
    simp [toPrecision, nearestEven]
  have pos := lastDigit_pos prec x
  have same : toPrecision prec x - x =
      (nearestEven (x / lastDigit prec x) - x / lastDigit prec x) * lastDigit prec x := by
    rw [toPrecision, sub_mul, div_mul_cancel₀ _ pos.ne']
  calc |toPrecision prec x - x|
      = |nearestEven (x / lastDigit prec x) - x / lastDigit prec x| * lastDigit prec x := by
        rw [same, abs_mul, abs_of_pos pos]
    _ ≤ 1 / 2 * lastDigit prec x := by
        gcongr
        exact abs_nearestEven_sub_le _
    _ = lastDigit prec x / 2 := by ring
    _ ≤ |x| / 2 ^ prec := half_lastDigit_le prec zero

variable {prec : ℕ} {x y : K}

theorem toPrecision_le (nonneg : 0 ≤ x) : toPrecision prec x ≤ x * (1 + 1 / 2 ^ prec) := by
  have error := (abs_le.mp (abs_toPrecision_sub_le prec x)).2
  rw [abs_of_nonneg nonneg] at error
  linarith [show x * (1 + 1 / 2 ^ prec) = x + x / 2 ^ prec by ring]

theorem le_toPrecision (nonneg : 0 ≤ x) : x * (1 - 1 / 2 ^ prec) ≤ toPrecision prec x := by
  have error := (abs_le.mp (abs_toPrecision_sub_le prec x)).1
  rw [abs_of_nonneg nonneg] at error
  linarith [show x * (1 - 1 / 2 ^ prec) = x - x / 2 ^ prec by ring]

/-- At more than no digit there is something left of each digit. -/
theorem one_sub_pos (digits : 0 < prec) : (0 : K) < 1 - 1 / 2 ^ prec := by
  rw [sub_pos, div_lt_one (by positivity)]
  exact one_lt_pow₀ one_lt_two (Nat.pos_iff_ne_zero.mp digits)

/-- What is positive is not rounded to zero. -/
theorem toPrecision_pos (digits : 0 < prec) (pos : 0 < x) : 0 < toPrecision prec x :=
  (mul_pos pos (one_sub_pos digits)).trans_le (le_toPrecision pos.le)

/-- **A rounded quotient** by a rounded number. -/
theorem toPrecision_div_le (digits : 0 < prec) (nonneg : 0 ≤ x) (pos : 0 < y) :
    toPrecision prec (x / toPrecision prec y) ≤
      x / y * ((1 + 1 / 2 ^ prec) / (1 - 1 / 2 ^ prec)) := by
  have rest : (0 : K) < 1 - 1 / 2 ^ prec := one_sub_pos digits
  have low : y * (1 - 1 / 2 ^ prec) ≤ toPrecision prec y := le_toPrecision pos.le
  calc toPrecision prec (x / toPrecision prec y)
      ≤ x / toPrecision prec y * (1 + 1 / 2 ^ prec) :=
        toPrecision_le (div_nonneg nonneg (toPrecision_pos digits pos).le)
    _ ≤ x / (y * (1 - 1 / 2 ^ prec)) * (1 + 1 / 2 ^ prec) := by gcongr
    _ = x / y * ((1 + 1 / 2 ^ prec) / (1 - 1 / 2 ^ prec)) := by
        rw [← div_div, mul_div_assoc', div_mul_eq_mul_div]

end

end Rockling
