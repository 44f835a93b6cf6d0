import Mathlib.Algebra.Order.Field.Rat
import Mathlib.Data.Int.Cast.Lemmas

/-!
# Java doubles

The code under verification adds and divides doubles, widens ints to them and
compares none. `JDouble` is that interface; the model is generic in it. `Exact`
is the instance without rounding: the value an IEEE operation rounds, with the
infinities and NaN that a division by zero gives. There is one zero, the positive
one, since no operation of the code produces a negative zero as a divisor.
-/
namespace StreamingPoc.Java

class JDouble (D : Type) where
  /-- The widening `(double) n`. -/
  ofInt : Int32 → D
  add : D → D → D
  div : D → D → D

/-- The default value of a double field. -/
def JDouble.zero (D : Type) [JDouble D] : D := JDouble.ofInt 0

inductive Exact where
  | finite (q : ℚ)
  | posInfinity
  | negInfinity
  | nan
  deriving DecidableEq, Repr

/-- Doubles of which the quotient of two ints is rounded as IEEE 754 asks for, in
any rounding direction: no such quotient overflows, a larger one is not rounded to
a smaller double, and 0 is a double. -/
class JDoubleRounded (D : Type) extends JDouble D where
  value : D → Exact
  round : ℚ → ℚ
  round_zero : round 0 = 0
  round_mono : Monotone round
  value_div : ∀ a b : Int32, b ≠ 0 →
    value (JDouble.div (JDouble.ofInt a) (JDouble.ofInt b)) = .finite (round ((a.toInt : ℚ) / b.toInt))

namespace Exact

def add : Exact → Exact → Exact
  | .finite a, .finite b => .finite (a + b)
  | .nan, _ | _, .nan => .nan
  | .posInfinity, .negInfinity | .negInfinity, .posInfinity => .nan
  | .posInfinity, _ | _, .posInfinity => .posInfinity
  | .negInfinity, _ | _, .negInfinity => .negInfinity

def div : Exact → Exact → Exact
  | .finite a, .finite b =>
    if b ≠ 0 then .finite (a / b)
    else if a = 0 then .nan
    else if 0 < a then .posInfinity else .negInfinity
  | .finite _, .posInfinity | .finite _, .negInfinity => .finite 0
  | .posInfinity, .finite b => if b < 0 then .negInfinity else .posInfinity
  | .negInfinity, .finite b => if b < 0 then .posInfinity else .negInfinity
  | _, _ => .nan

instance : JDouble Exact where
  ofInt n := .finite n.toInt
  add := add
  div := div

/-- Rounding is left out. -/
instance : JDoubleRounded Exact where
  value := id
  round := id
  round_zero := rfl
  round_mono := monotone_id
  value_div a b nonzero := by
    have nonzero' : (b.toInt : ℚ) ≠ 0 := by
      rw [Ne, Int.cast_eq_zero]
      exact fun zero => nonzero (Int32.toInt_inj.mp zero)
    exact if_pos nonzero'

theorem div_of_ne_zero (a b : ℚ) (nonzero : b ≠ 0) :
    div (.finite a) (.finite b) = .finite (a / b) := by
  simp [div, nonzero]

end Exact

end StreamingPoc.Java
