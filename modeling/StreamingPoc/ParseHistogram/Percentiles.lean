import StreamingPoc.Lib.Cumulative
import StreamingPoc.ParseHistogram.POCHistogram
import Mathlib.Algebra.Order.Field.Rat
import Mathlib.Algebra.Order.Field.Basic
import Mathlib.Data.Int.Cast.Lemmas

/-!
# Percentiles of a cumulative listing

`parseLines` adds the TotalCount column, which is cumulative, and `maxCount` is
then the total. The percentile of an entry should be its share of the total.
`fillPercentile` and `dump` sum the column once more. The statements are about
exact arithmetic: `Exact` gives the value before the double rounds it.
-/
namespace StreamingPoc.ParseHistogram

open StreamingPoc.Java StreamingPoc.Lib
open POCHistogram (ofAdds)

/-- Adds as a TotalCount column gives them. -/
structure Cumulative (adds : List (Exact × Int32)) (total : Int32) : Prop where
  nonneg : ∀ count ∈ counts adds, 0 ≤ count
  nondecreasing : (counts adds).Pairwise (· ≤ ·)
  ends : adds.getLast?.map Prod.snd = some total
  positive : 0 < total.toInt
  noWrap : (counts adds).sum < 2 ^ 31

/-- `count / total` as a rational. -/
def share (total : Int32) (count : Int) : Exact := .finite ((count : ℚ) / total.toInt)

/-- The percentile of every entry is its share of the total, in `fillPercentile`
and in `dump`. -/
structure PercentilesAreShares (adds : List (Exact × Int32)) (total : Int32) : Prop where
  share : ∀ (k : Nat) entry, adds[k]? = some entry →
    (percs adds)[k]? = some (share total entry.2.toInt)
  within : ∀ p ∈ percs adds, ∃ q : ℚ, p = Exact.finite q ∧ 0 ≤ q ∧ q ≤ 1
  nondecreasing : (percs adds).Pairwise fun p r =>
    ∃ a b : ℚ, p = Exact.finite a ∧ r = Exact.finite b ∧ a ≤ b
  last : (percs adds).getLast? = some (Exact.finite 1)
  dumped : ∀ (k : Nat) entry p, adds[k]? = some entry → (percs adds)[k]? = some p →
    (ofAdds adds).dump[k + 1]? = some (.row entry.1 entry.2 p)

namespace Cumulative

variable {adds : List (Exact × Int32)} {total : Int32}

theorem counts_getLast (cumulative : Cumulative adds total) :
    ∃ nonempty, (counts adds).getLast nonempty = total.toInt := by
  rcases List.eq_nil_or_concat' adds with rfl | ⟨init, last, rfl⟩
  · cases cumulative.ends
  · have ends := cumulative.ends
    rw [List.getLast?_concat, Option.map_some, Option.some.injEq] at ends
    exact ⟨by simp [counts], by simp [counts, ends]⟩

/-- The greatest count of a cumulative listing is its total. -/
theorem maxCount (cumulative : Cumulative adds total) : (ofAdds adds).maxCount = total := by
  obtain ⟨nonempty, last⟩ := cumulative.counts_getLast
  rw [(ofAdds adds).maxCount_eq, greatestCount, counts_ofAdds, ← Int32.toInt_inj,
    Java.Int32.toInt_foldl_max, toInt_counts, ← last]
  exact foldl_max_eq_getLast nonempty cumulative.nondecreasing cumulative.nonneg

/-- `perc` of entry `k` is the running sum of the counts over the total. -/
theorem percs_getElem? (cumulative : Cumulative adds total) (k : Nat) :
    (percs adds)[k]? = adds[k]?.map fun _ =>
      share total ((counts adds).take (k + 1)).sum := by
  have total_nonzero : (total.toInt : ℚ) ≠ 0 := by exact_mod_cast cumulative.positive.ne'
  rw [percs, POCHistogram.perc_fillPercentile, percentileLoop_getElem?, cumulative.maxCount,
    List.map_take, counts_ofAdds, Int32.zero_add, POCHistogram.entries_ofAdds, List.getElem?_map,
    Option.map_map]
  congr 1
  funext entry
  change Exact.div (.finite _) (.finite _) = _
  rw [Exact.div_of_ne_zero _ _ total_nonzero, toInt_sum_take cumulative.nonneg cumulative.noWrap, share]

theorem share_injective (cumulative : Cumulative adds total) {a b : Int}
    (same : share total a = share total b) : a = b := by
  have total_nonzero : (total.toInt : ℚ) ≠ 0 := by exact_mod_cast cumulative.positive.ne'
  rw [share, share, Exact.finite.injEq, div_left_inj' total_nonzero] at same
  exact_mod_cast same

theorem counts_getElem? (adds : List (Exact × Int32)) (k : Nat) :
    (counts adds)[k]? = adds[k]?.map fun entry => entry.2.toInt :=
  List.getElem?_map

/-- The shares are right exactly when the running sums repeat the counts. -/
theorem shares_iff_runningSums (cumulative : Cumulative adds total) :
    (∀ (k : Nat) entry, adds[k]? = some entry →
        (percs adds)[k]? = some (share total entry.2.toInt)) ↔
      ∀ k x, (counts adds)[k]? = some x → ((counts adds).take (k + 1)).sum = x := by
  constructor
  · intro shares k x at_k
    rw [counts_getElem?, Option.map_eq_some_iff] at at_k
    obtain ⟨entry, entry_at_k, rfl⟩ := at_k
    have perc := shares k entry entry_at_k
    rw [cumulative.percs_getElem?, entry_at_k, Option.map_some, Option.some.injEq] at perc
    exact cumulative.share_injective perc
  · intro sums k entry at_k
    have count_at_k : (counts adds)[k]? = some entry.2.toInt := by rw [counts_getElem?, at_k]; rfl
    rw [cumulative.percs_getElem?, at_k, Option.map_some, sums k _ count_at_k]

/-- Right shares are percentiles: they lie in [0, 1], do not decrease and end in 1. -/
theorem percentiles_of_shares (cumulative : Cumulative adds total)
    (shares : ∀ (k : Nat) entry, adds[k]? = some entry →
      (percs adds)[k]? = some (share total entry.2.toInt)) :
    PercentilesAreShares adds total := by
  have total_pos : (0 : ℚ) < total.toInt := by exact_mod_cast cumulative.positive
  obtain ⟨nonempty, last⟩ := cumulative.counts_getLast
  have percs_eq : percs adds = (counts adds).map (share total) := by
    apply List.ext_getElem?
    intro k
    rw [List.getElem?_map, counts_getElem?]
    cases at_k : adds[k]? with
    | none => rw [cumulative.percs_getElem?, at_k]; rfl
    | some entry => exact shares k entry at_k
  refine ⟨shares, ?within, ?nondecreasing, ?last, ?dumped⟩
  case within =>
    intro p member
    rw [percs_eq] at member
    obtain ⟨c, c_mem, rfl⟩ := List.mem_map.mp member
    have c_nonneg : (0 : ℚ) ≤ c := by exact_mod_cast cumulative.nonneg c c_mem
    have c_le : (c : ℚ) ≤ total.toInt := by
      have below := le_getLast_of_nondecreasing nonempty cumulative.nondecreasing c_mem
      rw [last] at below
      exact_mod_cast below
    exact ⟨_, rfl, div_nonneg c_nonneg total_pos.le, (div_le_one total_pos).mpr c_le⟩
  case nondecreasing =>
    rw [percs_eq, List.pairwise_map]
    refine cumulative.nondecreasing.imp fun {a b} le => ⟨_, _, rfl, rfl, ?_⟩
    have le' : (a : ℚ) ≤ b := by exact_mod_cast le
    exact div_le_div_of_nonneg_right le' total_pos.le
  case last =>
    rw [percs_eq, List.getLast?_map, List.getLast?_eq_some_getLast nonempty, last, Option.map_some,
      share, div_self total_pos.ne']
  case dumped =>
    intro k entry p at_k perc_k
    rw [POCHistogram.dump_eq, ← percs, List.getElem?_cons_succ, List.getElem?_zipWith_eq_some]
    exact ⟨_, _, by rw [POCHistogram.entries_ofAdds, List.getElem?_map, at_k]; rfl, perc_k, rfl⟩

/-- The percentiles of a cumulative listing are shares of the total exactly when
every count but the last is 0: any earlier count is counted again in all later
entries. -/
theorem percentiles_are_shares_iff (cumulative : Cumulative adds total) :
    PercentilesAreShares adds total ↔ ∀ entry ∈ adds.dropLast, entry.2 = 0 := by
  have zeros : (∀ x ∈ (counts adds).dropLast, x = 0) ↔ ∀ entry ∈ adds.dropLast, entry.2 = 0 := by
    rw [counts, ← List.map_dropLast, List.forall_mem_map]
    refine forall₂_congr fun entry _ => ?_
    rw [← Int32.toInt_inj, Int32.toInt_zero]
  rw [← zeros, ← runningSums_eq_iff _ cumulative.nonneg, ← cumulative.shares_iff_runningSums]
  exact ⟨PercentilesAreShares.share, cumulative.percentiles_of_shares⟩

end Cumulative

theorem percentiles_are_shares_zero_three :
    PercentilesAreShares [(.finite 0, 0), (.finite 1, 3)] 3 := by
  have cumulative : Cumulative [(.finite 0, 0), (.finite 1, 3)] 3 :=
    ⟨by decide, by decide, by decide, by decide, by decide⟩
  exact cumulative.percentiles_are_shares_iff.mpr (by decide)

/-- A listing with total 2 after a count of 1: the last percentile is 3/2. -/
theorem percentiles_not_shares :
    ¬ ∀ adds total, Cumulative adds total → PercentilesAreShares adds total := by
  intro claim
  have cumulative : Cumulative [(.finite 0, 1), (.finite 1, 2)] 2 :=
    ⟨by decide, by decide, by decide, by decide, by decide⟩
  have last := (claim _ _ cumulative).last
  revert last
  decide +kernel

end StreamingPoc.ParseHistogram
