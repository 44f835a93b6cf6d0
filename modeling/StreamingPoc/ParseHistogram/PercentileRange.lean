import StreamingPoc.ParseHistogram.POCHistogram
import Mathlib.Algebra.Order.Field.Basic

/-!
# The range of the percentile arithmetic

`accQty` is an int that sums all counts, and `maxCount` starts from 0, so a
listing of zeros leaves 0 as the divisor. The counts here are any nonnegative
ints. The doubles round a quotient in any way that keeps the order.
-/
namespace StreamingPoc.ParseHistogram

open StreamingPoc.Java
open POCHistogram (ofAdds)

/-- What the local `accQty` of the loop holds after each entry. -/
def POCHistogram.accQtys {D : Type} [JDouble D] (h : POCHistogram D) : List Int32 :=
  percentileLoop h.maxCount (fun _ accQty _ => accQty) 0 h.entries

/-- The percentile of a line that `dump` prints. -/
def DumpLine.percentile {D : Type} : DumpLine D → Option D
  | .title => none
  | .row _ _ percentile => some percentile

variable {D : Type}

/-- The percentiles that `fillPercentile` stores and `dump` prints are the
quotients of the accumulator by `maxCount`. The accumulator is exact after every
entry, the divisor is the greatest count and positive, and the percentiles are
numbers from 0 on that do not decrease. -/
structure PercentilesInRange [JDoubleRounded D] (adds : List (D × Int32)) : Prop where
  exact : ∀ (k : Nat) accQty, (ofAdds adds).accQtys[k]? = some accQty →
    accQty.toInt = ((counts adds).take (k + 1)).sum
  stored : percs adds = (ofAdds adds).accQtys.map fun accQty =>
    JDouble.div (JDouble.ofInt accQty) (JDouble.ofInt (ofAdds adds).maxCount)
  dumped : (ofAdds adds).dump.filterMap DumpLine.percentile = percs adds
  largest : adds ≠ [] → (ofAdds adds).maxCount.toInt ∈ counts adds ∧
    ∀ count ∈ counts adds, count ≤ (ofAdds adds).maxCount.toInt
  positive : adds ≠ [] → 0 < (ofAdds adds).maxCount.toInt
  finite : ∀ p ∈ percs adds, ∃ q : ℚ, JDoubleRounded.value p = .finite q ∧ 0 ≤ q
  nondecreasing : (percs adds).Pairwise fun p r =>
    ∃ a b : ℚ, JDoubleRounded.value p = .finite a ∧ JDoubleRounded.value r = .finite b ∧ a ≤ b

/-! ## The loop -/

section

variable [JDoubleRounded D] (adds : List (D × Int32))

theorem accQtys_getElem? (k : Nat) :
    (ofAdds adds).accQtys[k]? = adds[k]?.map fun _ => ((adds.map Prod.snd).take (k + 1)).sum := by
  rw [POCHistogram.accQtys, percentileLoop_getElem?, List.map_take, counts_ofAdds, Int32.zero_add,
    POCHistogram.entries_ofAdds, List.getElem?_map, Option.map_map]
  rfl

/-- The percentiles are quotients of what the accumulator holds, whatever the loop
does with them. -/
theorem filterMap_percentileLoop {β : Type} (maxCount : Int32) (use : HIEntry D → Int32 → D → β)
    (f : β → Option D)
    (shows : ∀ entry accQty percentile, f (use entry accQty percentile) = some percentile)
    (accQty : Int32) (entries : List (HIEntry D)) :
    (percentileLoop maxCount use accQty entries).filterMap f =
      (percentileLoop maxCount (fun _ accQty _ => accQty) accQty entries).map fun accQty =>
        JDouble.div (JDouble.ofInt accQty) (JDouble.ofInt maxCount) := by
  induction entries generalizing accQty with
  | nil => rfl
  | cons entry rest ih =>
    rw [percentileLoop, percentileLoop, List.filterMap_cons, shows, ih, List.map_cons]

theorem percs_eq :
    percs adds = (ofAdds adds).accQtys.map fun accQty =>
      JDouble.div (JDouble.ofInt accQty) (JDouble.ofInt (ofAdds adds).maxCount) := by
  have shown := filterMap_percentileLoop (ofAdds adds).maxCount (fun _ _ percentile => percentile) some
    (fun _ _ _ => rfl) 0 (ofAdds adds).entries
  rw [percs, POCHistogram.perc_fillPercentile, POCHistogram.accQtys, ← shown, List.filterMap_some]

theorem dump_percentiles : (ofAdds adds).dump.filterMap DumpLine.percentile = percs adds := by
  rw [percs_eq, POCHistogram.dump]
  exact filterMap_percentileLoop (ofAdds adds).maxCount _ DumpLine.percentile (fun _ _ _ => rfl) 0
    (ofAdds adds).entries

theorem maxCount_toInt : (ofAdds adds).maxCount.toInt = (counts adds).foldl max 0 := by
  rw [(ofAdds adds).maxCount_eq, greatestCount, Java.Int32.toInt_foldl_max, counts_ofAdds, toInt_counts]
  rfl

end

section

variable [JDoubleRounded D] {adds : List (D × Int32)}

/-- Without a wrap the accumulator holds the sums of the first counts. -/
theorem accQty_exact (nonneg : ∀ count ∈ counts adds, 0 ≤ count) (noWrap : (counts adds).sum < 2 ^ 31)
    {k : Nat} {accQty : Int32} (held : (ofAdds adds).accQtys[k]? = some accQty) :
    accQty.toInt = ((counts adds).take (k + 1)).sum := by
  rw [accQtys_getElem?, Option.map_eq_some_iff] at held
  obtain ⟨_, -, rfl⟩ := held
  exact toInt_sum_take nonneg noWrap (k + 1)

/-- The last value of the accumulator is the sum of all counts only if that fits. -/
theorem noWrap_of_exact (exact : ∀ (k : Nat) accQty, (ofAdds adds).accQtys[k]? = some accQty →
    accQty.toInt = ((counts adds).take (k + 1)).sum) : (counts adds).sum < 2 ^ 31 := by
  rcases List.eq_nil_or_concat' adds with rfl | ⟨init, last, rfl⟩
  · exact Int.pow_pos (by decide)
  · have held := accQtys_getElem? (init ++ [last]) init.length
    rw [List.getElem?_concat_length, Option.map_some] at held
    have total := exact _ _ held
    rw [List.take_of_length_le (l := counts (init ++ [last])) (by simp [counts])] at total
    rw [← total]
    exact Int32.toInt_lt _

theorem maxCount_greatest (nonneg : ∀ count ∈ counts adds, 0 ≤ count) (nonempty : adds ≠ []) :
    (ofAdds adds).maxCount.toInt ∈ counts adds ∧
      ∀ count ∈ counts adds, count ≤ (ofAdds adds).maxCount.toInt := by
  have some_ : counts adds ≠ [] := by simpa [counts] using nonempty
  have greatest : (ofAdds adds).maxCount.toInt = (counts adds).max some_ := by
    rw [maxCount_toInt, List.foldl_max_eq_max some_, max_eq_right]
    exact nonneg _ (List.max_mem some_)
  rw [greatest]
  exact ⟨List.max_mem some_, fun count member => List.le_max_of_mem member⟩

/-- The accumulator starts from 0 and does not go down. -/
theorem accQtys_nondecreasing (nonneg : ∀ count ∈ counts adds, 0 ≤ count)
    (noWrap : (counts adds).sum < 2 ^ 31) :
    (∀ q ∈ (ofAdds adds).accQtys, 0 ≤ q.toInt) ∧
      (ofAdds adds).accQtys.Pairwise fun q r => q.toInt ≤ r.toInt := by
  constructor
  · intro q member
    obtain ⟨k, held⟩ := List.mem_iff_getElem?.mp member
    rw [accQty_exact nonneg noWrap held]
    exact List.sum_nonneg fun count taken => nonneg count (List.mem_of_mem_take taken)
  · rw [List.pairwise_iff_getElem]
    intro i j within_i within_j lt
    rw [accQty_exact nonneg noWrap (List.getElem?_eq_getElem within_i),
      accQty_exact nonneg noWrap (List.getElem?_eq_getElem within_j)]
    have earlier : ((counts adds).take (i + 1)).Sublist ((counts adds).take (j + 1)) :=
      (List.take_prefix_take_left (by omega)).sublist
    exact earlier.sum_le_sum fun count taken => nonneg count (List.mem_of_mem_take taken)

/-- A percentile is the rounded quotient. -/
theorem value_percentile (q : Int32) {maxCount : Int32} (positive : 0 < maxCount.toInt) :
    JDoubleRounded.value (JDouble.div (JDouble.ofInt q) (JDouble.ofInt maxCount) : D) =
      .finite (JDoubleRounded.round D ((q.toInt : ℚ) / maxCount.toInt)) := by
  apply JDoubleRounded.value_div
  rintro rfl
  exact absurd positive (by decide)

theorem percentile_nonneg {q maxCount : Int32} (positive : 0 < maxCount.toInt) (fromZero : 0 ≤ q.toInt) :
    ∃ a : ℚ, JDoubleRounded.value
      (JDouble.div (JDouble.ofInt q) (JDouble.ofInt maxCount) : D) = .finite a ∧ 0 ≤ a := by
  refine ⟨_, value_percentile q positive, ?_⟩
  have quotient : (0 : ℚ) ≤ (q.toInt : ℚ) / maxCount.toInt := by
    apply div_nonneg
    · exact_mod_cast fromZero
    · exact_mod_cast positive.le
  have rounded := JDoubleRounded.round_mono (D := D) quotient
  rwa [JDoubleRounded.round_zero] at rounded

theorem percentile_mono {q r maxCount : Int32} (positive : 0 < maxCount.toInt) (le : q.toInt ≤ r.toInt) :
    ∃ a b : ℚ, JDoubleRounded.value
        (JDouble.div (JDouble.ofInt q) (JDouble.ofInt maxCount) : D) = .finite a ∧
      JDoubleRounded.value
        (JDouble.div (JDouble.ofInt r) (JDouble.ofInt maxCount) : D) = .finite b ∧ a ≤ b := by
  refine ⟨_, _, value_percentile q positive, value_percentile r positive, ?_⟩
  apply JDoubleRounded.round_mono
  have counts : (q.toInt : ℚ) ≤ r.toInt := by exact_mod_cast le
  have divisor : (0 : ℚ) ≤ maxCount.toInt := by exact_mod_cast positive.le
  exact div_le_div_of_nonneg_right counts divisor

/-- The percentile arithmetic neither wraps nor divides by zero exactly when the
sum of all counts is an int and some count is positive. -/
theorem percentiles_in_range_iff (nonneg : ∀ count ∈ counts adds, 0 ≤ count) :
    PercentilesInRange adds ↔
      (counts adds).sum < 2 ^ 31 ∧ (adds = [] ∨ ∃ count ∈ counts adds, 0 < count) := by
  constructor
  · intro inRange
    refine ⟨noWrap_of_exact inRange.exact, ?_⟩
    by_cases empty : adds = []
    · exact .inl empty
    · exact .inr ⟨_, (inRange.largest empty).1, inRange.positive empty⟩
  · rintro ⟨noWrap, some_⟩
    have positive (nonempty : adds ≠ []) : 0 < (ofAdds adds).maxCount.toInt := by
      obtain ⟨count, member, count_pos⟩ := some_.resolve_left nonempty
      exact count_pos.trans_le ((maxCount_greatest nonneg nonempty).2 count member)
    have nonempty {p : D} (member : p ∈ percs adds) : adds ≠ [] := by
      rintro rfl
      cases member
    obtain ⟨fromZero, sorted⟩ := accQtys_nondecreasing nonneg noWrap
    refine ⟨fun k accQty held => accQty_exact nonneg noWrap held, percs_eq adds, dump_percentiles adds,
      maxCount_greatest nonneg, positive, ?finite, ?nondecreasing⟩
    case finite =>
      intro p member
      have divisor := positive (nonempty member)
      rw [percs_eq] at member
      obtain ⟨q, q_mem, rfl⟩ := List.mem_map.mp member
      exact percentile_nonneg divisor (fromZero q q_mem)
    case nondecreasing =>
      by_cases empty : adds = []
      · subst empty
        exact List.Pairwise.nil
      · rw [percs_eq, List.pairwise_map]
        exact sorted.imp fun le => percentile_mono (positive empty) le

end

theorem percentiles_in_range_zero_three :
    PercentilesInRange [((.finite 0 : Exact), 0), (.finite 1, 3)] :=
  (percentiles_in_range_iff (by decide)).mpr (by decide)

/-- A count of 0 alone: the divisor is 0 and the percentile not a number. -/
theorem percentiles_out_of_range :
    ¬ (∀ adds : List (Exact × Int32), (∀ count ∈ counts adds, 0 ≤ count) →
      PercentilesInRange adds) := by
  intro claim
  have positive := (claim [(.finite 0, 0)] (by decide)).positive (by simp)
  revert positive
  decide

end StreamingPoc.ParseHistogram
