import Mathlib.Algebra.Ring.Int.Defs
import Mathlib.Algebra.Ring.Nat

/-!
# Differences and quotients of longs

A clock reading minus a timestamp, both longs: the difference of the numbers
reduced to 64 bits and read as signed.
-/
namespace StreamingPoc.Java.Int64

theorem toInt_sub_eq (a b : Int64) :
    (a - b).toInt = if (a.toInt - b.toInt) % 2 ^ 64 < 2 ^ 63 then (a.toInt - b.toInt) % 2 ^ 64
      else (a.toInt - b.toInt) % 2 ^ 64 - 2 ^ 64 := by
  rw [Int64.toInt_sub, Int.bmod_def]
  rfl

theorem sub_nonneg_iff (a b : Int64) :
    0 ≤ (a - b).toInt ↔ (a.toInt - b.toInt) % 2 ^ 64 < 2 ^ 63 := by
  rw [toInt_sub_eq]
  split <;> omega

/-- The difference is between 0 and `n`. -/
theorem sub_within_iff (a b : Int64) {n : Int} (small : n < 2 ^ 63) :
    0 ≤ (a - b).toInt ∧ (a - b).toInt ≤ n ↔ (a.toInt - b.toInt) % 2 ^ 64 ≤ n := by
  rw [toInt_sub_eq]
  split <;> omega

/-- Two readings of a clock that wraps: a difference that is seen to be `n` or
more, `n` not negative, is one of `n` or more of a clock that does not go back. -/
theorem le_of_le_sub_ofInt {a b n : Int} (forward : a ≤ b) (nonneg : 0 ≤ n)
    (seen : n ≤ (Int64.ofInt b - Int64.ofInt a).toInt) : n ≤ b - a := by
  have size : (Int64.size : Int) = 2 ^ 64 := rfl
  rw [← Int64.ofInt_sub, Int64.toInt_ofInt, Int.bmod_def, size] at seen
  split at seen <;> omega

/-- Two readings of a clock that wraps: their difference is the time between them,
if that is less than half of its period. -/
theorem toInt_sub_ofInt {a b : Int} (forward : a ≤ b) (short : b - a < 2 ^ 63) :
    (Int64.ofInt b - Int64.ofInt a).toInt = b - a := by
  rw [← Int64.ofInt_sub, Int64.toInt_ofInt_of_le]
  · omega
  · omega

/-- A rate computed in longs: neither the quotient of an int nor a thousand times
that overflows. -/
theorem toInt_div_mul_thousand {n : Nat} (int : n < 2 ^ 31) (d : Int64) :
    (Int64.ofNat n / d * 1000).toInt = (n : Int).tdiv d.toInt * 1000 := by
  have count : (Int64.ofNat n).toInt = n := Int64.toInt_ofNat_of_lt (by omega)
  have bound := Int.natAbs_tdiv_le_natAbs n d.toInt
  have thousand : (1000 : Int64).toInt = 1000 := rfl
  rw [Int64.toInt_mul, Int64.toInt_div, count, thousand]
  generalize (n : Int).tdiv d.toInt = quotient at bound ⊢
  have fits : quotient.bmod (2 ^ 64) = quotient := Int.bmod_eq_of_le (by omega) (by omega)
  rw [fits]
  exact Int.bmod_eq_of_le (by omega) (by omega)

end StreamingPoc.Java.Int64
