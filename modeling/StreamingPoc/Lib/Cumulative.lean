import Mathlib.Algebra.Order.BigOperators.Group.List

/-!
# Cumulative sequences and their running sums

A cumulative sequence is nonnegative and nondecreasing: element `k` already is
the sum of everything up to `k`, and the last element is the total and the
greatest one. Summing such a sequence once more counts everything again;
`runningSums_eq_iff` says when that does no harm.
-/
namespace StreamingPoc.Lib

variable {α : Type}

theorem foldl_max_le [LinearOrder α] (xs : List α) {a b : α} (start : a ≤ b)
    (all : ∀ x ∈ xs, x ≤ b) : xs.foldl max a ≤ b := by
  induction xs generalizing a with
  | nil => exact start
  | cons x xs ih =>
    apply ih
    · exact max_le start (all x List.mem_cons_self)
    · exact fun y member => all y (List.mem_cons_of_mem x member)

theorem le_getLast_of_nondecreasing [LinearOrder α] {xs : List α} (nonempty : xs ≠ [])
    (nondecreasing : xs.Pairwise (· ≤ ·)) {x : α} (member : x ∈ xs) : x ≤ xs.getLast nonempty := by
  rw [← List.dropLast_append_getLast nonempty] at nondecreasing member
  rcases List.mem_append.mp member with early | last
  · exact (List.pairwise_append.mp nondecreasing).2.2 x early _ List.mem_cons_self
  · rw [List.mem_singleton.mp last]

/-- The running maximum of a nondecreasing sequence ends at its last element. -/
theorem foldl_max_eq_getLast [LinearOrder α] {xs : List α} (nonempty : xs ≠ []) {a : α}
    (nondecreasing : xs.Pairwise (· ≤ ·)) (above : ∀ x ∈ xs, a ≤ x) :
    xs.foldl max a = xs.getLast nonempty := by
  have below_last : ∀ x ∈ xs.dropLast, x ≤ xs.getLast nonempty := fun x member =>
    le_getLast_of_nondecreasing nonempty nondecreasing (List.dropLast_subset xs member)
  have init_max := foldl_max_le xs.dropLast (above _ (List.getLast_mem nonempty)) below_last
  conv_lhs => rw [← List.dropLast_append_getLast nonempty]
  rw [List.foldl_append, List.foldl_cons, List.foldl_nil, max_eq_right init_max]

/-- The running sums of a nonnegative sequence are the sequence itself exactly
when only its last element may differ from zero. -/
theorem runningSums_eq_iff [AddCommGroup α] [LinearOrder α] [IsOrderedAddMonoid α] (xs : List α)
    (nonneg : ∀ x ∈ xs, 0 ≤ x) :
    (∀ k x, xs[k]? = some x → (xs.take (k + 1)).sum = x) ↔ ∀ x ∈ xs.dropLast, x = 0 := by
  rcases List.eq_nil_or_concat' xs with rfl | ⟨init, last, rfl⟩
  · simp
  have nonneg_init : ∀ x ∈ init, 0 ≤ x := fun x member => nonneg x (List.mem_append_left _ member)
  rw [List.dropLast_concat]
  constructor
  · intro sums x member
    have total := sums init.length last (by simp)
    rw [List.take_of_length_le (by simp), List.sum_append] at total
    have init_zero : init.sum = 0 := by simpa using total
    exact List.all_zero_of_le_zero_le_of_sum_eq_zero nonneg_init init_zero member
  · intro zeros k x at_k
    have start_zero : ∀ n, (init.take n).sum = 0 := fun n =>
      List.sum_eq_zero fun y member => zeros y (List.mem_of_mem_take member)
    rcases Nat.lt_or_ge k init.length with before | after
    · rw [List.getElem?_append_left before] at at_k
      rw [List.take_append_of_le_length (by omega), start_zero,
        zeros x (List.mem_of_getElem? at_k)]
    · obtain ⟨below, value⟩ := List.getElem?_eq_some_iff.mp at_k
      obtain rfl : k = init.length := by
        simp at below
        omega
      have init_zero : init.sum = 0 := by simpa using start_zero init.length
      rw [List.take_of_length_le (by simp), List.sum_append, init_zero]
      simpa using value

end StreamingPoc.Lib
