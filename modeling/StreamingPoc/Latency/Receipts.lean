import StreamingPoc.Java.Int64
import StreamingPoc.Latency.Reports

/-!
# Latencies in real time

What a reader subtracts are two readings of one clock that wraps. As long as
nothing is older than the range of the histograms, they hold the times that
went by.
-/
namespace StreamingPoc.Latency

open StreamingPoc.Lib
open StreamingPoc.Netfeed (Histogram Sample secondsToNanos)

/-- Something that was read: its number among all that was sent, and the times at
which it was stamped and read. -/
structure Receipt where
  number : Nat
  sent : Int
  received : Int
  deriving DecidableEq, Repr

namespace Receipt

def elapsed (r : Receipt) : Int := r.received - r.sent

def sample (r : Receipt) : Sample := { time := Int64.ofInt r.sent, nanoTime := Int64.ofInt r.received }

/-- Read no earlier than it was sent, and within the range. -/
def InTime (r : Receipt) : Prop := r.sent ≤ r.received ∧ r.elapsed ≤ 10000000000

theorem latency {r : Receipt} (inTime : r.InTime) : r.sample.latency.toInt = r.elapsed := by
  obtain ⟨forward, short⟩ := inTime
  unfold elapsed at *
  exact Java.Int64.toInt_sub_ofInt forward (by omega)

theorem withinRange {r : Receipt} (inTime : r.InTime) : WithinRange r.sample := by
  have same := latency inTime
  obtain ⟨forward, short⟩ := inTime
  constructor
  · rw [same, elapsed]
    omega
  · rw [same]
    exact short

theorem all_withinRange {receipts : List Receipt} (inTime : ∀ r ∈ receipts, r.InTime) :
    ∀ sample ∈ receipts.map Receipt.sample, WithinRange sample :=
  List.forall_mem_map.mpr fun r member => withinRange (inTime r member)

end Receipt

/-- Reports of what was read hold the times that went by. -/
theorem Reports.of_receipts {size counter : Nat} {receipts : List Receipt} {reports : List Histogram}
    {current : Histogram} (inv : Reports size ((receipts.map Receipt.sample).map Sample.latency) reports current counter)
    (inTime : ∀ r ∈ receipts, r.InTime) :
    reports.map (fun histogram => histogram.values.map Int64.toInt) =
        groups size (receipts.map Receipt.elapsed) ∧
      current.values.map Int64.toInt = rest size (receipts.map Receipt.elapsed) := by
  obtain ⟨grouped, remaining⟩ := inv.eq_groups
  have values : ((receipts.map Receipt.sample).map Sample.latency).map Int64.toInt =
      receipts.map Receipt.elapsed := by
    rw [List.map_map, List.map_map]
    exact List.map_congr_left fun r member => Receipt.latency (inTime r member)
  obtain ⟨groups_eq, rest_eq⟩ := groups_map Int64.toInt size ((receipts.map Receipt.sample).map Sample.latency)
  constructor
  · rw [grouped, List.map_map, ← values, groups_eq]
    rfl
  · rw [remaining, ← rest_eq, values]

end StreamingPoc.Latency
