import StreamingPoc.Java.Double
import StreamingPoc.Java.Int32
import Mathlib.Algebra.Order.BigOperators.Group.List
import Mathlib.Data.List.Induction

/-!
# POCHistogram

`POCHistogram.java`. Only `add` changes the entries and `maxCount`, so a
histogram carries the fact that `maxCount` is the greatest count, or 0.
`fillPercentile` and `dump` walk the entries with one loop; what they do with an
entry and the locals `accQty` and `percentile` is the parameter of
`percentileLoop`. `dump` gives the values it passes to `println`, before they are
formatted.
-/
namespace StreamingPoc.ParseHistogram

open StreamingPoc.Java

structure HIEntry (D : Type) where
  time : D
  count : Int32
  perc : D
  deriving DecidableEq, Repr

variable {D : Type}

/-- `max(0, counts)`. -/
def greatestCount (entries : List (HIEntry D)) : Int32 :=
  (entries.map HIEntry.count).foldl max 0

@[ext] structure POCHistogram (D : Type) where
  entries : List (HIEntry D)
  maxCount : Int32
  maxCount_eq : maxCount = greatestCount entries
  deriving DecidableEq, Repr

/-- A line that `dump` prints. -/
inductive DumpLine (D : Type) where
  | title
  | row (time : D) (count : Int32) (percentile : D)
  deriving DecidableEq, Repr

variable [JDouble D]

/-- `new HIEntry(time, count)`; `perc` has the default value. -/
def HIEntry.new (time : D) (count : Int32) : HIEntry D := { time, count, perc := JDouble.zero D }

/-- The loop of `fillPercentile` and `dump`. `accQty` is an int and wraps. -/
def percentileLoop {β : Type} (maxCount : Int32) (use : HIEntry D → Int32 → D → β) :
    Int32 → List (HIEntry D) → List β
  | _, [] => []
  | accQty, entry :: rest =>
    let accQty := accQty + entry.count
    let percentile := JDouble.div (JDouble.ofInt accQty) (JDouble.ofInt maxCount)
    use entry accQty percentile :: percentileLoop maxCount use accQty rest

theorem percentileLoop_getElem? {β : Type} (maxCount : Int32) (use : HIEntry D → Int32 → D → β)
    (accQty : Int32) (entries : List (HIEntry D)) (k : Nat) :
    (percentileLoop maxCount use accQty entries)[k]? = entries[k]?.map fun entry =>
      use entry (accQty + ((entries.take (k + 1)).map HIEntry.count).sum) (JDouble.div
        (JDouble.ofInt (accQty + ((entries.take (k + 1)).map HIEntry.count).sum))
        (JDouble.ofInt maxCount)) := by
  induction entries generalizing accQty k with
  | nil => simp [percentileLoop]
  | cons entry rest ih =>
    cases k with
    | zero => simp [percentileLoop]
    | succ k => simp [percentileLoop, ih, Int32.add_assoc]

theorem map_percentileLoop {β γ : Type} (maxCount : Int32) (use : HIEntry D → Int32 → D → β)
    (f : β → γ) (accQty : Int32) (entries : List (HIEntry D)) :
    (percentileLoop maxCount use accQty entries).map f =
      percentileLoop maxCount (fun entry accQty percentile => f (use entry accQty percentile))
        accQty entries := by
  induction entries generalizing accQty with
  | nil => rfl
  | cons entry rest ih => simp [percentileLoop, ih]

theorem percentileLoop_entry {β : Type} (maxCount : Int32) (use : HIEntry D → β) (accQty : Int32)
    (entries : List (HIEntry D)) :
    percentileLoop maxCount (fun entry _ _ => use entry) accQty entries = entries.map use := by
  induction entries generalizing accQty with
  | nil => rfl
  | cons entry rest ih => simp [percentileLoop, ih]

/-- The percentiles do not depend on what the loop does with them. -/
theorem percentileLoop_eq_zipWith {β : Type} (maxCount : Int32) (use : HIEntry D → D → β)
    (accQty : Int32) (entries : List (HIEntry D)) :
    percentileLoop maxCount (fun entry _ percentile => use entry percentile) accQty entries =
      entries.zipWith use (percentileLoop maxCount (fun _ _ percentile => percentile) accQty entries) := by
  induction entries generalizing accQty with
  | nil => rfl
  | cons entry rest ih =>
    simp only [percentileLoop, List.zipWith_cons_cons]
    rw [ih]

namespace POCHistogram

def new : POCHistogram D := { entries := [], maxCount := 0, maxCount_eq := rfl }

def add (h : POCHistogram D) (time : D) (count : Int32) : POCHistogram D where
  entries := h.entries ++ [.new time count]
  maxCount := max h.maxCount count
  maxCount_eq := by simp [h.maxCount_eq, greatestCount, HIEntry.new]

/-- `add` called for each pair in turn. -/
def ofAdds (adds : List (D × Int32)) : POCHistogram D :=
  adds.foldl (fun h entry => h.add entry.1 entry.2) new

def fillPercentile (h : POCHistogram D) : POCHistogram D where
  entries := percentileLoop h.maxCount (fun entry _ percentile => { entry with perc := percentile })
    0 h.entries
  maxCount := h.maxCount
  maxCount_eq := by
    rw [h.maxCount_eq, greatestCount, greatestCount, map_percentileLoop, percentileLoop_entry]

def dump (h : POCHistogram D) : List (DumpLine D) :=
  .title ::
    percentileLoop h.maxCount (fun entry _ percentile => .row entry.time entry.count percentile)
      0 h.entries

/-- What `add` was given, in order. -/
def pairs (h : POCHistogram D) : List (D × Int32) := h.entries.map fun e => (e.time, e.count)

theorem ofAdds_append_singleton (adds : List (D × Int32)) (entry : D × Int32) :
    ofAdds (adds ++ [entry]) = (ofAdds adds).add entry.1 entry.2 := by
  simp [ofAdds]

theorem entries_ofAdds (adds : List (D × Int32)) :
    (ofAdds adds).entries = adds.map fun entry => HIEntry.new entry.1 entry.2 := by
  induction adds using List.reverseRecOn with
  | nil => rfl
  | append_singleton adds entry ih => simp [ofAdds_append_singleton, add, ih]

theorem pairs_ofAdds (adds : List (D × Int32)) : (ofAdds adds).pairs = adds := by
  simp [pairs, entries_ofAdds, HIEntry.new, Function.comp_def]

/-- `fillPercentile` writes no time and no count. -/
theorem pairs_fillPercentile (h : POCHistogram D) : h.fillPercentile.pairs = h.pairs := by
  simp [pairs, fillPercentile, map_percentileLoop, percentileLoop_entry]

theorem perc_fillPercentile (h : POCHistogram D) :
    h.fillPercentile.entries.map HIEntry.perc =
      percentileLoop h.maxCount (fun _ _ percentile => percentile) 0 h.entries := by
  simp [fillPercentile, map_percentileLoop]

/-- `dump` prints what `fillPercentile` stores. -/
theorem dump_eq (h : POCHistogram D) :
    h.dump = .title :: h.entries.zipWith (fun entry percentile =>
      .row entry.time entry.count percentile) (h.fillPercentile.entries.map HIEntry.perc) := by
  rw [dump, perc_fillPercentile, percentileLoop_eq_zipWith]

end POCHistogram

open POCHistogram (ofAdds)

/-- The `perc` fields after `fillPercentile`, in entry order. -/
def percs (adds : List (D × Int32)) : List D :=
  (ofAdds adds).fillPercentile.entries.map HIEntry.perc

/-- The counts as numbers. -/
def counts {D : Type} (adds : List (D × Int32)) : List Int := adds.map fun entry => entry.2.toInt

theorem counts_ofAdds (adds : List (D × Int32)) :
    (ofAdds adds).entries.map HIEntry.count = adds.map Prod.snd := by
  simp [POCHistogram.entries_ofAdds, HIEntry.new, Function.comp_def]

theorem toInt_counts {D : Type} (adds : List (D × Int32)) :
    (adds.map Prod.snd).map Int32.toInt = counts adds := by
  simp [counts, Function.comp_def]

/-- Sums of the first counts do not wrap if the sum of all of them fits. -/
theorem toInt_sum_take {D : Type} {adds : List (D × Int32)} (nonneg : ∀ count ∈ counts adds, 0 ≤ count)
    (noWrap : (counts adds).sum < 2 ^ 31) (k : Nat) :
    ((adds.map Prod.snd).take k).sum.toInt = ((counts adds).take k).sum := by
  have below : ((counts adds).take k).sum ≤ (counts adds).sum :=
    (List.take_sublist k _).sum_le_sum nonneg
  have taken : ∀ c ∈ (adds.map Prod.snd).take k, 0 ≤ c.toInt := by
    intro c member
    apply nonneg
    rw [← toInt_counts]
    exact List.mem_map_of_mem (List.mem_of_mem_take member)
  rw [Java.Int32.toInt_sum _ taken, List.map_take, toInt_counts]
  rw [List.map_take, toInt_counts]
  exact Int.lt_of_le_of_lt below noWrap

end StreamingPoc.ParseHistogram
