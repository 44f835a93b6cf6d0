import Mathlib.Algebra.Order.Field.Power
import Mathlib.Data.Int.Log
import Mathlib.Data.Rat.Floor
import Mathlib.Tactic.Linarith
import Mathlib.Tactic.NormNum
import Mathlib.Tactic.Ring

/-!
# Rounding to significant bits

Rationals rounded to `p` significant bits: to nearest, ties to even. A binary64
operation rounds its exact result to 53 bits, as long as that is 0 or far from
the ends of the range of exponents; there are no infinities here.
-/
namespace StreamingPoc.Lib

/-- The nearest integer, and of two that are equally near the even one. -/
def nearestEven (y : ℚ) : Int :=
  if y - ⌊y⌋ < 1 / 2 then ⌊y⌋
  else if 1 / 2 < y - ⌊y⌋ then ⌊y⌋ + 1
  else if ⌊y⌋ % 2 = 0 then ⌊y⌋
  else ⌊y⌋ + 1

/-- The distance of neighbours of `p` bits around `x`. -/
def ulp (p : Nat) (x : ℚ) : ℚ := 2 ^ (Int.log 2 |x| + 1 - p)

def rounded (p : Nat) (x : ℚ) : ℚ := nearestEven (x / ulp p x) * ulp p x

/-- The double nearest to `x`. -/
def binary64 (x : ℚ) : ℚ := rounded 53 x

@[simp] theorem nearestEven_intCast (n : Int) : nearestEven n = n := by
  simp [nearestEven]

theorem abs_nearestEven_sub_le (y : ℚ) : |(nearestEven y : ℚ) - y| ≤ 1 / 2 := by
  have lower := Int.floor_le y
  have upper := Int.lt_floor_add_one y
  unfold nearestEven
  split_ifs <;> push_cast <;> rw [abs_le] <;> constructor <;> linarith

theorem ulp_pos (p : Nat) (x : ℚ) : 0 < ulp p x := by
  unfold ulp
  positivity

theorem ulp_le_of_lt (p : Nat) {x : ℚ} {k : Int} (nonzero : x ≠ 0) (small : |x| < 2 ^ k) :
    ulp p x ≤ 2 ^ (k - p) := by
  have log : Int.log 2 |x| < k :=
    (Int.lt_zpow_iff_log_lt Nat.one_lt_two (abs_pos.mpr nonzero)).mp (by exact_mod_cast small)
  exact zpow_le_zpow_right₀ (by norm_num) (by omega)

@[simp] theorem rounded_zero (p : Nat) : rounded p 0 = 0 := by
  simp [rounded, nearestEven]

theorem abs_rounded_sub_le (p : Nat) (x : ℚ) : |rounded p x - x| ≤ ulp p x / 2 := by
  have positive := ulp_pos p x
  have scaled : rounded p x - x = (nearestEven (x / ulp p x) - x / ulp p x) * ulp p x := by
    rw [sub_mul, div_mul_cancel₀ x positive.ne', rounded]
  rw [scaled, abs_mul, abs_of_pos positive]
  have nearest := mul_le_mul_of_nonneg_right (abs_nearestEven_sub_le (x / ulp p x)) positive.le
  linarith

/-- The absolute error below a power of two. -/
theorem abs_rounded_sub_le_of_lt (p : Nat) {x : ℚ} {k : Int} (small : |x| < 2 ^ k) :
    |rounded p x - x| ≤ 2 ^ (k - p) / 2 := by
  by_cases zero : x = 0
  · rw [zero, rounded_zero, sub_zero, abs_zero]
    positivity
  · have error := abs_rounded_sub_le p x
    have unit := ulp_le_of_lt p zero small
    linarith

/-- A multiple of a power of two that needs no more than `p` bits. -/
theorem rounded_of_multiple (p : Nat) {x : ℚ} {n k : Int} (multiple : x = n * 2 ^ k)
    (small : |x| < 2 ^ (k + p)) : rounded p x = x := by
  by_cases zero : x = 0
  · rw [zero, rounded_zero]
  · have log : Int.log 2 |x| < k + p :=
      (Int.lt_zpow_iff_log_lt Nat.one_lt_two (abs_pos.mpr zero)).mp (by exact_mod_cast small)
    obtain ⟨j, more⟩ : ∃ j : Nat, k = j + (Int.log 2 |x| + 1 - p) :=
      ⟨(k - (Int.log 2 |x| + 1 - p)).toNat, by omega⟩
    have scaled : x / ulp p x = ((n * 2 ^ j : Int) : ℚ) := by
      rw [div_eq_iff (ulp_pos p x).ne']
      calc x = n * 2 ^ k := multiple
        _ = n * (2 ^ (j : Int) * ulp p x) := by rw [more, zpow_add₀ (by norm_num), ulp]
        _ = ((n * 2 ^ j : Int) : ℚ) * ulp p x := by
          push_cast
          rw [zpow_natCast, mul_assoc]
    rw [rounded, scaled, nearestEven_intCast, ← scaled, div_mul_cancel₀ x (ulp_pos p x).ne']

end StreamingPoc.Lib
