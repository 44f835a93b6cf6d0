import Mathlib.Algebra.Order.Field.Basic
import Mathlib.Algebra.Order.Ring.Abs
import Mathlib.Data.Rat.Cast.Order
import Mathlib.Tactic.Ring

/-!
# Rates in integers

`n` events in `e` milliseconds are `n * 1000 / e` a second. A rate that divides
before it multiplies is off by 1000 times the remainder over `e`.
-/
namespace StreamingPoc.Lib

/-- The rate differs by less than 1 from the exact quotient. -/
def Accurate (n : Int) (e : ℚ) (rate : Int) : Prop := |(rate : ℚ) - n * 1000 / e| < 1

/-- The elapsed time in units of which a millisecond has `d`. -/
theorem accurate_div_iff {n e d rate : Int} (unit : 0 < d) (positive : 0 < e) :
    Accurate n (e / d) rate ↔ |rate * e - n * 1000 * d| < e := by
  have unit' : (0 : ℚ) < d := by exact_mod_cast unit
  have positive' : (0 : ℚ) < e := by exact_mod_cast positive
  have common : (rate : ℚ) - n * 1000 / (e / d) = (rate * e - n * 1000 * d) / e := by
    rw [sub_div, mul_div_cancel_right₀ _ positive'.ne', div_div_eq_mul_div]
  rw [Accurate, common, abs_div, abs_of_pos positive', div_lt_one positive']
  exact_mod_cast Iff.rfl

theorem accurate_iff {n e rate : Int} (positive : 0 < e) :
    Accurate n e rate ↔ |rate * e - n * 1000| < e := by
  have whole : (e : ℚ) = e / (1 : Int) := by simp
  rw [whole, accurate_div_iff Int.one_pos positive, mul_one]

theorem accurate_quotient_iff (n : Int) {e : Int} (positive : 0 < e) :
    Accurate n e (n / e * 1000) ↔ 1000 * (n % e) < e := by
  have split := Int.emod_add_mul_ediv n e
  have remainder : n / e * 1000 * e - n * 1000 = -(1000 * (n % e)) := by
    calc n / e * 1000 * e - n * 1000 = 1000 * (e * (n / e)) - 1000 * n := by ring
      _ = -(1000 * (n % e)) := by omega
  have nonneg := Int.emod_nonneg n (Int.ne_of_gt positive)
  rw [accurate_iff positive, remainder, abs_neg, abs_of_nonneg (by omega)]

/-- A negative rate of 1000 or more is far off. -/
theorem not_accurate_of_negative {n e rate : Int} (positive : 0 < e) (nonneg : 0 ≤ n)
    (negative : rate ≤ -1) : ¬ Accurate n e rate := by
  rw [accurate_iff positive, not_lt]
  have product : rate * e ≤ -1 * e := Int.mul_le_mul_of_nonneg_right negative (Int.le_of_lt positive)
  rw [abs_of_nonpos (by omega)]
  omega

/-- The divisors with one quotient are an interval. -/
theorem ediv_eq_iff_window {n m q : Int} (count : 0 ≤ n) (positive : 0 < m) (nonneg : 0 ≤ q) :
    n / m = q ↔ n / (q + 1) < m ∧ (0 < q → m ≤ n / q) := by
  have above : n / (q + 1) < m ↔ n < q * m + m := by
    rw [Int.ediv_lt_iff_lt_mul (by omega), Int.mul_add, Int.mul_one, mul_comm]
  have below : (0 < q → m ≤ n / q) ↔ q * m ≤ n := by
    by_cases zero : q = 0
    · simp [zero, count]
    · rw [Int.le_ediv_iff_mul_le (by omega), mul_comm]
      exact forall_prop_of_true (by omega)
  rw [above, below, Int.ediv_eq_iff_of_pos positive, and_comm]

end StreamingPoc.Lib
