import Mathlib.Data.Int.Notation

/-!
# Latency histograms

HdrHistogram as far as the code uses it: `recordValue` throws outside the range
the histogram was created with, `reset` empties it. A latency is the difference
of a clock reading and a timestamp, both longs; it wraps.
-/
namespace StreamingPoc.Netfeed

/-- HdrHistogram by its range and the recorded values, oldest first. -/
structure Histogram where
  highest : Int
  values : List Int64
  deriving DecidableEq, Repr

inductive Thrown where
  | arrayIndexOutOfBounds (value : Int64)
  deriving DecidableEq, Repr

def Histogram.create (highest : Int) : Histogram := { highest, values := [] }

def Histogram.recordValue (h : Histogram) (value : Int64) : Except Thrown Histogram :=
  if value.toInt < 0 ∨ h.highest < value.toInt then .error (.arrayIndexOutOfBounds value)
  else .ok { h with values := h.values ++ [value] }

/-- `TimeUnit.SECONDS.toNanos`. -/
def secondsToNanos (seconds : Int) : Int := seconds * 1000000000

/-- A timestamp that came with a message and the clock reading it is subtracted from. -/
structure Sample where
  time : Int64
  nanoTime : Int64
  deriving DecidableEq, Repr

def Sample.latency (sample : Sample) : Int64 := sample.nanoTime - sample.time

namespace Histogram

def reset (h : Histogram) : Histogram := { h with values := [] }

/-- The histogram with one more value. -/
abbrev add (h : Histogram) (value : Int64) : Histogram := { h with values := h.values ++ [value] }

theorem ne_add (h : Histogram) (value : Int64) : h ≠ h.add value := by
  intro same
  have values := congrArg Histogram.values same
  simp at values

/-- The values that `recordValue` takes. -/
def InRange (h : Histogram) (value : Int64) : Prop :=
  0 ≤ value.toInt ∧ value.toInt ≤ h.highest

theorem recordValue_inRange {h : Histogram} {value : Int64} (inRange : h.InRange value) :
    h.recordValue value = .ok (h.add value) := by
  obtain ⟨nonneg, below⟩ := inRange
  unfold recordValue
  rw [if_neg (by omega)]

theorem recordValue_outside {h : Histogram} {value : Int64} (outside : ¬ h.InRange value) :
    h.recordValue value = .error (.arrayIndexOutOfBounds value) := by
  unfold InRange at outside
  unfold recordValue
  rw [if_pos (by omega)]

theorem highest_of_recordValue {h h' : Histogram} {value : Int64}
    (recorded : h.recordValue value = .ok h') : h'.highest = h.highest := by
  unfold recordValue at recorded
  split at recorded
  · cases recorded
  · cases recorded
    rfl

end Histogram

end StreamingPoc.Netfeed
