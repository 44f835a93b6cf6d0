import Mathlib.Algebra.Order.BigOperators.Group.List
import Mathlib.Algebra.Ring.Int.Defs
import Mathlib.Order.Lattice

/-!
# Sums, maxima and remainders of ints

`+` on `Int32` wraps as on Java's int. A sum of nonnegative ints is the sum of
their values as long as that stays below `2 ^ 31`, and so is the next value of a
counter that is not at the greatest int.
-/
namespace StreamingPoc.Java

theorem Int32.toInt_max (a b : Int32) : (max a b).toInt = max a.toInt b.toInt := by
  change (if a ≤ b then b else a).toInt = _
  split
  · rename_i le
    rw [max_eq_right (Int32.le_iff_toInt_le.mp le)]
  · rename_i not_le
    rw [max_eq_left (Int.le_of_lt (Int.not_le.mp fun le => not_le (Int32.le_iff_toInt_le.mpr le)))]

theorem Int32.toInt_foldl_max (counts : List Int32) (start : Int32) :
    (counts.foldl max start).toInt = (counts.map Int32.toInt).foldl max start.toInt := by
  induction counts generalizing start with
  | nil => rfl
  | cons c counts ih => rw [List.foldl_cons, ih, Int32.toInt_max, List.map_cons, List.foldl_cons]

theorem Int32.toInt_sum (counts : List Int32) (nonneg : ∀ c ∈ counts, 0 ≤ c.toInt)
    (noWrap : (counts.map Int32.toInt).sum < 2 ^ 31) :
    counts.sum.toInt = (counts.map Int32.toInt).sum := by
  induction counts with
  | nil => rfl
  | cons c counts ih =>
    have first : 0 ≤ c.toInt := nonneg c List.mem_cons_self
    have later : ∀ d ∈ counts, 0 ≤ d.toInt := fun d member => nonneg d (List.mem_cons_of_mem c member)
    have rest : 0 ≤ (counts.map Int32.toInt).sum :=
      List.sum_nonneg (by simpa using later)
    rw [List.map_cons, List.sum_cons] at noWrap
    rw [List.sum_cons, Int32.toInt_add, ih later (by omega), List.map_cons, List.sum_cons]
    exact Int.bmod_eq_of_le (by omega) (by omega)

theorem Int32.toInt_add_one {i : Int32} (notLast : i ≠ Int32.maxValue) :
    (i + 1).toInt = i.toInt + 1 := by
  have hlt := i.toInt_lt
  have hle := i.le_toInt
  have hne : i.toInt ≠ 2 ^ 31 - 1 := fun h => notLast (Int32.toInt_inj.mp h)
  rw [Int32.toInt_add]
  apply Int.bmod_eq_of_le
  · simp
    omega
  · simp
    omega

theorem Int32.mod_eq_zero_iff (i n : Int32) : i % n = 0 ↔ i.toInt % n.toInt = 0 := by
  rw [← Int32.toInt_inj, Int32.toInt_mod, Int32.toInt_zero, ← Int.dvd_iff_tmod_eq_zero,
    Int.dvd_iff_emod_eq_zero]

theorem Int32.eq_zero_or_pos {n : Int32} (notNegative : 0 ≤ n) : n = 0 ∨ 0 < n := by
  rw [Int32.le_iff_toInt_le] at notNegative
  rw [Int32.lt_iff_toInt_lt, ← Int32.toInt_inj]
  omega

end StreamingPoc.Java
