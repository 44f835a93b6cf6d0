import Mathlib.Tactic.FieldSimp
import StreamingPoc.Lib.Rounding

/-!
# The elapsed milliseconds of dbagPublisher::loadData

`millitime` (dbag_publisher.cpp:232-235) is computed in longs and doubles: the
milliseconds of the seconds are a `long` product, the rest is added in doubles
and the sum truncated. Of two clock readings in order it is the rounded number
of milliseconds, as long as the doubles are finer than a microsecond; of longer
times it is just large.
-/
namespace StreamingPoc.Esp.LoadData

open StreamingPoc.Lib

structure TimeVal where
  tvSec : Int64
  tvUsec : Int64
  deriving DecidableEq, Repr

/-- The conversion of a double to `long` truncates. -/
def toLong (x : ℚ) : Int64 := Int64.ofInt (if 0 ≤ x then ⌊x⌋ else ⌈x⌉)

/-- `(millis + useconds/1000.0) + 0.5`. -/
def milliDouble (millis useconds : Int) : ℚ :=
  binary64 (binary64 (binary64 millis + binary64 (binary64 useconds / 1000)) + 1 / 2)

def millitime (start endTime : TimeVal) : Int64 :=
  let seconds := endTime.tvSec - start.tvSec
  let useconds := endTime.tvUsec - start.tvUsec
  toLong (milliDouble (seconds * 1000).toInt useconds.toInt)

/-- The microseconds between two readings. -/
def micros (batch : TimeVal × TimeVal) : Int :=
  (batch.2.tvSec.toInt - batch.1.tvSec.toInt) * 10 ^ 6 + (batch.2.tvUsec.toInt - batch.1.tvUsec.toInt)

/-- Two readings in order. `gettimeofday` gives less than a million microseconds,
and the milliseconds between the readings fit into a `long`, with 4 seconds to
spare for the rounding: beyond that the C++ is undefined. -/
structure Forward (batch : TimeVal × TimeVal) : Prop where
  startUsec : 0 ≤ batch.1.tvUsec.toInt ∧ batch.1.tvUsec.toInt < 10 ^ 6
  endUsec : 0 ≤ batch.2.tvUsec.toInt ∧ batch.2.tvUsec.toInt < 10 ^ 6
  notBefore : 0 ≤ micros batch
  noOverflow : (batch.2.tvSec.toInt - batch.1.tvSec.toInt + 4) * 1000 < 2 ^ 63

/-! ## The doubles -/

/-- Half integers of no more than 53 bits are doubles. -/
theorem binary64_half {x : ℚ} (n : Int) (half : x = n / 2) (small : |x| < 2 ^ 52) : binary64 x = x := by
  refine rounded_of_multiple 53 (n := n) (k := -1) ?_ ?_
  · rw [half, zpow_neg_one, div_eq_mul_inv]
  · exact_mod_cast small

theorem binary64_int (n : Int) (small : |(n : ℚ)| < 2 ^ 52) : binary64 n = n :=
  binary64_half (2 * n) (by push_cast; ring) small

/-- The rounding error below `2 ^ k`. -/
theorem abs_binary64_sub_le {x : ℚ} (k : Int) (small : |x| < 2 ^ k) :
    |binary64 x - x| ≤ 2 ^ (k - 53) / 2 :=
  abs_rounded_sub_le_of_lt 53 small

section

variable {s u : Int}

/-- Half a millisecond too much: every double is exact. -/
theorem milliDouble_tie (nonneg : 0 ≤ s) (small : s < 2 ^ 30) (usec : |u| < 10 ^ 6)
    (tie : u % 1000 = 500) :
    milliDouble (s * 1000) u = ((s * 10 ^ 6 + u + 500) / 1000 : Int) := by
  obtain ⟨a, rfl⟩ : ∃ a, u = 1000 * a + 500 := ⟨u / 1000, by omega⟩
  rw [abs_lt] at usec
  have quotient : ((1000 * a + 500 : Int) : ℚ) / 1000 = (2 * a + 1 : Int) / 2 := by
    push_cast
    ring
  have sum : ((s * 1000 : Int) : ℚ) + (2 * a + 1 : Int) / 2 = (2 * (s * 1000 + a) + 1 : Int) / 2 := by
    push_cast
    ring
  have total : ((2 * (s * 1000 + a) + 1 : Int) : ℚ) / 2 + 1 / 2 = (s * 1000 + a + 1 : Int) := by
    push_cast
    ring
  have floor : (s * 10 ^ 6 + (1000 * a + 500) + 500) / 1000 = s * 1000 + a + 1 := by omega
  have bound {n : Int} (h : |n| < 2 ^ 52) : |(n : ℚ)| < 2 ^ 52 := by exact_mod_cast h
  have bound_half {n : Int} (h : |n| < 2 ^ 53) : |(n : ℚ) / 2| < 2 ^ 52 := by
    have h' : |(n : ℚ)| < 2 ^ 53 := by exact_mod_cast h
    rw [abs_div, abs_two]
    linarith
  rw [milliDouble, binary64_int _ (bound (abs_lt.mpr (by omega))),
    binary64_int _ (bound (abs_lt.mpr (by omega))), quotient,
    binary64_half _ rfl (bound_half (abs_lt.mpr (by omega))), sum,
    binary64_half _ rfl (bound_half (abs_lt.mpr (by omega))), total,
    binary64_int _ (bound (abs_lt.mpr (by omega))), floor]

/-- The errors of the conversion, the division and the two sums. -/
theorem abs_milliDouble_sub_le (millis : Int) (k : Nat) (bits : k ≤ 63) (nonneg : 0 ≤ millis)
    (fits : millis + 4000 ≤ 2 ^ k) (usec : |u| < 10 ^ 6) :
    |milliDouble millis u - (millis + u / 1000 + 1 / 2)| ≤ 3 * (2 ^ (k - 53 : Int) / 2) + 1 / 2 ^ 44 := by
  have unit : (2 : ℚ) ^ (k - 53 : Int) / 2 ≤ 512 := by
    have power : (2 : ℚ) ^ (k - 53 : Int) ≤ 2 ^ (10 : Int) :=
      zpow_le_zpow_right₀ (by norm_num) (by omega)
    norm_num at power ⊢
    linarith
  have error (x : ℚ) (lower : -2 ^ (k : Int) < x) (upper : x < 2 ^ (k : Int)) :
      |binary64 x - x| ≤ 2 ^ (k - 53 : Int) / 2 :=
    abs_binary64_sub_le k (abs_lt.mpr ⟨lower, upper⟩)
  have nonneg' : (0 : ℚ) ≤ millis := by exact_mod_cast nonneg
  have fits' : (millis : ℚ) + 4000 ≤ 2 ^ (k : Int) := by exact_mod_cast fits
  have usec' : |(u : ℚ)| < 10 ^ 6 := by exact_mod_cast usec
  have useconds : binary64 u = u := binary64_int u (usec'.trans (by norm_num))
  have below : |(u : ℚ) / 1000| < 2 ^ (10 : Int) := by
    rw [abs_div, abs_of_pos (by norm_num : (0 : ℚ) < 1000), div_lt_iff₀ (by norm_num)]
    exact usec'.trans (by norm_num)
  have quotient := abs_binary64_sub_le 10 below
  rw [milliDouble, useconds]
  generalize (u : ℚ) / 1000 = x at quotient below ⊢
  generalize (2 : ℚ) ^ (k - 53 : Int) / 2 = e at unit error ⊢
  norm_num at quotient below
  have converted := error millis (by linarith) (by linarith)
  rw [abs_lt] at below
  rw [abs_le] at quotient converted
  have sum := error (binary64 millis + binary64 x) (by linarith) (by linarith)
  rw [abs_le] at sum
  have total := error (binary64 (binary64 millis + binary64 x) + 1 / 2) (by linarith) (by linarith)
  rw [abs_le] at total ⊢
  constructor <;> linarith

/-- As long as the doubles are finer than a microsecond. -/
theorem abs_milliDouble_sub_lt (nonneg : 0 ≤ s) (small : s < 2 ^ 30) (usec : |u| < 10 ^ 6) :
    |milliDouble (s * 1000) u - ((s * 10 ^ 6 + u + 500 : Int) : ℚ) / 1000| < 1 / 1000 := by
  have exact_ : ((s * 10 ^ 6 + u + 500 : Int) : ℚ) / 1000 = (s * 1000 : Int) + (u : ℚ) / 1000 + 1 / 2 := by
    push_cast
    ring
  rw [exact_]
  refine (abs_milliDouble_sub_le _ 41 (by omega) (by omega) (by omega) usec).trans_lt ?_
  norm_num

/-- Milliseconds rounded to the nearest. -/
theorem floor_milliDouble (nonneg : 0 ≤ s) (small : s < 2 ^ 30) (usec : |u| < 10 ^ 6) :
    ⌊milliDouble (s * 1000) u⌋ = (s * 10 ^ 6 + u + 500) / 1000 := by
  by_cases tie : u % 1000 = 500
  · rw [milliDouble_tie nonneg small usec tie, Int.floor_intCast]
  · have near := abs_milliDouble_sub_lt nonneg small usec
    have remainder : 0 < (s * 10 ^ 6 + u + 500) % 1000 := by omega
    have split := Int.emod_add_mul_ediv (s * 10 ^ 6 + u + 500) 1000
    have last := Int.emod_lt_of_pos (s * 10 ^ 6 + u + 500) (by omega : (0 : Int) < 1000)
    generalize s * 10 ^ 6 + u + 500 = e at near remainder split last ⊢
    generalize e % 1000 = r at remainder split last
    generalize e / 1000 = m at split ⊢
    have split' : (e : ℚ) / 1000 = m + (r : ℚ) / 1000 := by
      rw [← split]
      push_cast
      ring
    have first : (1 : ℚ) / 1000 ≤ (r : ℚ) / 1000 :=
      div_le_div_of_nonneg_right (by exact_mod_cast remainder) (by norm_num)
    have last' : (r : ℚ) / 1000 ≤ 999 / 1000 :=
      div_le_div_of_nonneg_right (by exact_mod_cast Int.le_of_lt_add_one last) (by norm_num)
    rw [split', abs_lt] at near
    rw [Int.floor_eq_iff]
    constructor <;> linarith

theorem milliDouble_large (large : 2 ^ 30 ≤ s) (noOverflow : (s + 4) * 1000 < 2 ^ 63)
    (usec : |u| < 10 ^ 6) :
    2 ^ 31 ≤ milliDouble (s * 1000) u ∧ milliDouble (s * 1000) u < 2 ^ 63 := by
  have near := abs_milliDouble_sub_le (s * 1000) 63 (by omega) (by omega) (by omega) usec
  have usec' : |(u : ℚ)| < 10 ^ 6 := by exact_mod_cast usec
  have large' : (2 : ℚ) ^ 30 ≤ s := by exact_mod_cast large
  have noOverflow' : ((s : ℚ) + 4) * 1000 < 2 ^ 63 := by exact_mod_cast noOverflow
  norm_num at near large' noOverflow' usec' ⊢
  rw [abs_le] at near
  rw [abs_lt] at usec'
  constructor <;> linarith

end

/-! ## The milliseconds -/

section

variable {batch : TimeVal × TimeVal}

theorem Forward.seconds_nonneg (forward : Forward batch) :
    0 ≤ batch.2.tvSec.toInt - batch.1.tvSec.toInt := by
  obtain ⟨startUsec, endUsec, notBefore, -⟩ := forward
  rw [micros] at notBefore
  omega

theorem Forward.abs_useconds_lt (forward : Forward batch) :
    |batch.2.tvUsec.toInt - batch.1.tvUsec.toInt| < 10 ^ 6 := by
  obtain ⟨startUsec, endUsec, -, -⟩ := forward
  rw [abs_lt]
  omega

/-- No operation on `long` wraps. -/
theorem Forward.millitime_eq (forward : Forward batch) :
    millitime batch.1 batch.2 = toLong (milliDouble
      ((batch.2.tvSec.toInt - batch.1.tvSec.toInt) * 1000)
      (batch.2.tvUsec.toInt - batch.1.tvUsec.toInt)) := by
  have nonneg := forward.seconds_nonneg
  have useconds := abs_lt.mp forward.abs_useconds_lt
  have noOverflow := forward.noOverflow
  have thousand : (1000 : Int64).toInt = 1000 := rfl
  have seconds_eq : ((batch.2.tvSec - batch.1.tvSec) * 1000).toInt =
      (batch.2.tvSec.toInt - batch.1.tvSec.toInt) * 1000 := by
    rw [Int64.toInt_mul, Int64.toInt_sub, thousand, Int.bmod_mul_bmod]
    exact Int.bmod_eq_of_le (by omega) (by omega)
  have useconds_eq : (batch.2.tvUsec - batch.1.tvUsec).toInt =
      batch.2.tvUsec.toInt - batch.1.tvUsec.toInt := by
    rw [Int64.toInt_sub]
    exact Int.bmod_eq_of_le (by omega) (by omega)
  rw [millitime, seconds_eq, useconds_eq]

theorem toInt_toLong {x : ℚ} (nonneg : 0 ≤ x) (fits : x < 2 ^ 63) : (toLong x).toInt = ⌊x⌋ := by
  have lower : 0 ≤ ⌊x⌋ := Int.floor_nonneg.mpr nonneg
  have upper : ⌊x⌋ < 2 ^ 63 := Int.floor_lt.mpr (by exact_mod_cast fits)
  rw [toLong, if_pos nonneg]
  exact Int64.toInt_ofInt_of_le (by omega) (by omega)

/-- Up to 2 ^ 30 seconds the milliseconds are the rounded ones, and from then on
both are too large for a rate. -/
theorem millitime_spec (forward : Forward batch) :
    (millitime batch.1 batch.2).toInt = (micros batch + 500) / 1000 ∨
      2 ^ 31 ≤ (millitime batch.1 batch.2).toInt ∧ 2 ^ 31 ≤ (micros batch + 500) / 1000 := by
  have nonneg := forward.seconds_nonneg
  have useconds := forward.abs_useconds_lt
  have noOverflow := forward.noOverflow
  have notBefore := forward.notBefore
  rw [forward.millitime_eq]
  rw [micros] at notBefore ⊢
  generalize batch.2.tvSec.toInt - batch.1.tvSec.toInt = s at nonneg noOverflow notBefore ⊢
  generalize batch.2.tvUsec.toInt - batch.1.tvUsec.toInt = u at useconds notBefore ⊢
  by_cases small : s < 2 ^ 30
  · left
    have near := abs_lt.mp (abs_milliDouble_sub_lt nonneg small useconds)
    have lower : (500 : ℚ) ≤ (s * 10 ^ 6 + u + 500 : Int) := by
      exact_mod_cast Int.add_le_add_right notBefore 500
    have upper : ((s * 10 ^ 6 + u + 500 : Int) : ℚ) < 2 ^ 51 := by
      have useconds' := abs_lt.mp useconds
      exact_mod_cast (by omega : s * 10 ^ 6 + u + 500 < 2 ^ 51)
    generalize ((s * 10 ^ 6 + u + 500 : Int) : ℚ) = e at near lower upper
    rw [toInt_toLong (by linarith) (by linarith), floor_milliDouble nonneg small useconds]
  · right
    obtain ⟨lower, upper⟩ := milliDouble_large (by omega) noOverflow useconds
    have useconds' := abs_lt.mp useconds
    constructor
    · rw [toInt_toLong (le_trans (by norm_num) lower) upper, Int.le_floor]
      exact_mod_cast lower
    · omega

end

end StreamingPoc.Esp.LoadData
