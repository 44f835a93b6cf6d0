import Mathlib.Data.List.Basic

/-!
# Groups of a fixed size

A stream that is read one element at a time is cut into groups of `n` elements
and a shorter rest. `groups` and `rest` say by index which elements these are;
`Cut` is what a reader maintains that closes a group as soon as it is full. How
the stream came in, in which pieces, plays no part in either.
-/
namespace StreamingPoc.Lib

variable {α : Type}

/-- Group `k` holds the elements from `k * n` to `(k + 1) * n - 1`. -/
def groups (n : Nat) (xs : List α) : List (List α) :=
  (List.range (xs.length / n)).map fun k => (xs.drop (k * n)).take n

def rest (n : Nat) (xs : List α) : List α := xs.drop (xs.length / n * n)

theorem groups_of_short {n : Nat} {xs : List α} (short : xs.length < n) :
    groups n xs = [] ∧ rest n xs = xs := by
  unfold groups rest
  rw [Nat.div_eq_of_lt short]
  simp

/-- A first group and the groups after it. -/
theorem groups_append {n : Nat} (positive : 0 < n) {g : List α} (full : g.length = n)
    (xs : List α) : groups n (g ++ xs) = g :: groups n xs ∧ rest n (g ++ xs) = rest n xs := by
  have count : (g ++ xs).length / n = xs.length / n + 1 := by
    rw [List.length_append, full, Nat.add_comm, Nat.add_div_right _ positive]
  unfold groups rest
  rw [count]
  constructor
  · rw [List.range_succ_eq_map, List.map_cons, List.map_map]
    congr 1
    · rw [Nat.zero_mul, List.drop_zero, ← full, List.take_left']
      rfl
    · apply List.map_congr_left
      intro k _
      have shift : (k + 1) * n = g.length + k * n := by rw [full, Nat.succ_mul, Nat.add_comm]
      simp only [Function.comp_apply, Nat.succ_eq_add_one]
      rw [shift, List.drop_length_add_append]
  · have shift : (xs.length / n + 1) * n = g.length + xs.length / n * n := by
      rw [full, Nat.succ_mul, Nat.add_comm]
    rw [shift, List.drop_length_add_append]

theorem groups_map {β : Type} (f : α → β) (n : Nat) (xs : List α) :
    groups n (xs.map f) = (groups n xs).map (List.map f) ∧ rest n (xs.map f) = (rest n xs).map f := by
  constructor
  · simp [groups, Function.comp_def, List.map_drop, List.map_take]
  · simp [rest, List.map_drop]

theorem length_groups (n : Nat) (xs : List α) :
    (groups n xs).length = xs.length / n ∧ (rest n xs).length = xs.length % n := by
  constructor
  · simp [groups]
  · rw [rest, List.length_drop, Nat.mod_eq_sub_div_mul]

/-- `ys` are the elements at the beginning of each group of `n`, also of one that is
not full. -/
def Firsts (n : Nat) (xs ys : List α) : Prop := ∀ k, ys[k]? = xs[k * n]?

/-- The first of a group is the one that is read when the groups before are full. -/
theorem Firsts.append_singleton {n : Nat} (positive : 0 < n) {xs ys : List α} (firsts : Firsts n xs ys) (a : α) :
    Firsts n (xs ++ [a]) (ys ++ if xs.length % n = 0 then [a] else []) := by
  have within : ∀ k, k < ys.length ↔ k * n < xs.length := by
    intro k
    rw [← Nat.not_le, ← List.getElem?_eq_none_iff, firsts k, List.getElem?_eq_none_iff, Nat.not_le]
  intro k
  by_cases before : k * n < xs.length
  · rw [List.getElem?_append_left ((within k).mpr before), List.getElem?_append_left before, firsts k]
  · have behind : ys.length ≤ k := Nat.le_of_not_lt fun lt => before ((within k).mp lt)
    rw [List.getElem?_append_right behind, List.getElem?_append_right (Nat.le_of_not_lt before)]
    by_cases full : xs.length % n = 0
    · obtain ⟨m, whole⟩ := Nat.dvd_of_mod_eq_zero full
      have count : ys.length = m := by
        apply Nat.le_antisymm
        · apply Nat.le_of_not_lt
          intro more
          have inside := (within m).mp more
          rw [whole, Nat.mul_comm] at inside
          omega
        · apply Nat.le_of_not_lt
          intro less
          have outside := (within ys.length).mpr (by
            rw [whole, Nat.mul_comm n]
            exact Nat.mul_lt_mul_of_pos_right less positive)
          omega
      rw [if_pos full, count, whole]
      rcases Nat.lt_or_eq_of_le (count ▸ behind) with later | rfl
      · have apart : n * m + 1 ≤ k * n := by
          rw [Nat.mul_comm n]
          exact Nat.mul_lt_mul_of_pos_right later positive
        rw [List.getElem?_eq_none (by simp; omega), List.getElem?_eq_none (by simp; omega)]
      · rw [Nat.mul_comm, Nat.sub_self, Nat.sub_self]
    · have apart : xs.length ≠ k * n := by
        rintro same
        exact full (same ▸ Nat.mul_mod_left k n)
      rw [if_neg full, List.getElem?_nil, List.getElem?_eq_none (by simp; omega)]

/-- `xs` was read; `gs` are the groups that were closed, `current` is the open one. -/
structure Cut (n : Nat) (xs : List α) (gs : List (List α)) (current : List α) : Prop where
  whole : gs.flatten ++ current = xs
  full : ∀ g ∈ gs, g.length = n
  short : current.length < n

namespace Cut

variable {n : Nat} {xs : List α} {gs : List (List α)} {current : List α}

theorem start (positive : 0 < n) : Cut n ([] : List α) [] [] :=
  ⟨rfl, by simp, positive⟩

theorem keep (cut : Cut n xs gs current) (a : α) (more : current.length + 1 < n) :
    Cut n (xs ++ [a]) gs (current ++ [a]) := by
  refine ⟨?_, cut.full, by simpa using more⟩
  rw [← List.append_assoc, cut.whole]

theorem close (cut : Cut n xs gs current) (a : α) (last : current.length + 1 = n) :
    Cut n (xs ++ [a]) (gs ++ [current ++ [a]]) [] := by
  refine ⟨?_, ?_, ?_⟩
  · rw [List.flatten_append, List.flatten_singleton, List.append_nil, ← List.append_assoc,
      cut.whole]
  · intro g member
    rcases List.mem_append.mp member with old | new
    · exact cut.full g old
    · rw [List.mem_singleton.mp new, List.length_append]
      exact last
  · rw [List.length_nil]
    omega

/-- There is one way to cut a stream. -/
theorem eq_groups (cut : Cut n xs gs current) : gs = groups n xs ∧ current = rest n xs := by
  have positive : 0 < n := Nat.lt_of_le_of_lt (Nat.zero_le _) cut.short
  obtain ⟨whole, full, short⟩ := cut
  induction gs generalizing xs with
  | nil =>
    rw [List.flatten_nil, List.nil_append] at whole
    subst whole
    obtain ⟨none_full, all_rest⟩ := groups_of_short short
    exact ⟨none_full.symm, all_rest.symm⟩
  | cons g gs ih =>
    obtain ⟨tail, last⟩ := ih rfl fun h member => full h (List.mem_cons_of_mem g member)
    obtain ⟨head, same⟩ := groups_append positive (full g List.mem_cons_self) (gs.flatten ++ current)
    rw [List.flatten_cons, List.append_assoc] at whole
    rw [← whole, head, same]
    exact ⟨by rw [← tail], last⟩

end Cut

end StreamingPoc.Lib
