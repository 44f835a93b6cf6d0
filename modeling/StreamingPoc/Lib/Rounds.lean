import Mathlib.Algebra.BigOperators.Group.List.Basic
import Mathlib.Algebra.Ring.Nat
import Mathlib.Data.List.Induction

/-!
# Rounds of a stream, and every k-th item of it

A stream is a list in which `none` ends a round. `splitRounds` gives the ended
rounds and the open one, `sample k` keeps every `k`-th item and every end, with
items counted over all rounds. Streams grow at their end, so the lemmas are about
appending one item or one end.
-/
namespace StreamingPoc.Lib

variable {α β : Type}

def pushRound : List (List α) × List α → Option α → List (List α) × List α
  | (ended, current), some a => (ended, current ++ [a])
  | (ended, current), none => (ended ++ [current], [])

def splitRounds (xs : List (Option α)) : List (List α) × List α :=
  xs.foldl pushRound ([], [])

def joinRounds (ended : List (List α)) (current : List α) : List (Option α) :=
  (ended.flatMap fun round => round.map some ++ [none]) ++ current.map some

@[simp] theorem splitRounds_nil : splitRounds ([] : List (Option α)) = ([], []) := rfl

@[simp] theorem splitRounds_item (xs : List (Option α)) (a : α) :
    splitRounds (xs ++ [some a]) = ((splitRounds xs).1, (splitRounds xs).2 ++ [a]) := by
  simp [splitRounds, pushRound]

@[simp] theorem splitRounds_end (xs : List (Option α)) :
    splitRounds (xs ++ [none]) = ((splitRounds xs).1 ++ [(splitRounds xs).2], []) := by
  simp [splitRounds, pushRound]

/-- Splitting loses nothing. -/
theorem joinRounds_splitRounds (xs : List (Option α)) :
    joinRounds (splitRounds xs).1 (splitRounds xs).2 = xs := by
  induction xs using List.reverseRecOn with
  | nil => rfl
  | append_singleton xs x ih =>
    cases x with
    | none =>
      rw [splitRounds_end]
      conv_rhs => rw [← ih]
      simp [joinRounds]
    | some a =>
      rw [splitRounds_item]
      conv_rhs => rw [← ih]
      simp [joinRounds]

/-- The items of the rounds are those of the stream. -/
theorem mem_rounds {xs : List (Option α)} {a : α} :
    ((∃ round ∈ (splitRounds xs).1, a ∈ round) ∨ a ∈ (splitRounds xs).2) ↔ some a ∈ xs := by
  conv_rhs => rw [← joinRounds_splitRounds xs]
  simp [joinRounds]

/-- The ended rounds of a stream stay its first rounds however it goes on. -/
theorem ended_stable (xs ys : List (Option α)) :
    (splitRounds xs).1 <+: (splitRounds (xs ++ ys)).1 := by
  induction ys using List.reverseRecOn with
  | nil => simp
  | append_singleton ys y ih =>
    rw [← List.append_assoc]
    cases y with
    | none =>
      rw [splitRounds_end]
      exact ih.trans (List.prefix_append _ _)
    | some a =>
      rw [splitRounds_item]
      exact ih

theorem ended_getElem? {xs : List (Option α)} (ys : List (Option α)) {r : Nat} {round : List α}
    (ended : (splitRounds xs).1[r]? = some round) :
    (splitRounds (xs ++ ys)).1[r]? = some round := by
  obtain ⟨more, whole⟩ := ended_stable xs ys
  obtain ⟨below, -⟩ := List.getElem?_eq_some_iff.mp ended
  rw [← whole, List.getElem?_append_left below, ended]

theorem splitRounds_map (f : α → β) (xs : List (Option α)) :
    splitRounds (xs.map (Option.map f)) =
      ((splitRounds xs).1.map (List.map f), (splitRounds xs).2.map f) := by
  induction xs using List.reverseRecOn with
  | nil => rfl
  | append_singleton xs x ih => cases x <;> simp [ih]

/-- The number of items, ends not counted. -/
def items (xs : List (Option α)) : Nat := xs.countP Option.isSome

@[simp] theorem items_item (xs : List (Option α)) (a : α) :
    items (xs ++ [some a]) = items xs + 1 := by
  simp [items, List.countP_append]

@[simp] theorem items_end (xs : List (Option α)) : items (xs ++ [none]) = items xs := by
  simp [items, List.countP_append]

theorem items_eq_splitRounds (xs : List (Option α)) :
    items xs = ((splitRounds xs).1.map List.length).sum + (splitRounds xs).2.length := by
  induction xs using List.reverseRecOn with
  | nil => rfl
  | append_singleton xs x ih =>
    cases x with
    | none => simp [ih]
    | some a => simp [ih, Nat.add_assoc]

/-- Every `k`-th item, the first one being number `before + 1`, and every end. -/
def sample (k : Nat) : Nat → List (Option α) → List (Option α)
  | _, [] => []
  | before, none :: xs => none :: sample k before xs
  | before, some a :: xs =>
    if (before + 1) % k = 0 then some a :: sample k (before + 1) xs
    else sample k (before + 1) xs

theorem sample_append (k before : Nat) (xs ys : List (Option α)) :
    sample k before (xs ++ ys) = sample k before xs ++ sample k (before + items xs) ys := by
  induction xs generalizing before with
  | nil => rfl
  | cons x xs ih =>
    cases x with
    | none =>
      have same : items (none :: xs) = items xs := by simp [items]
      simp only [List.cons_append, sample, ih, same]
    | some a =>
      have more : before + items (some a :: xs) = before + 1 + items xs := by
        simp only [items, List.countP_cons, Option.isSome_some, if_true]
        omega
      simp only [List.cons_append, sample, ih, more]
      split <;> simp

@[simp] theorem sample_end (k before : Nat) (xs : List (Option α)) :
    sample k before (xs ++ [none]) = sample k before xs ++ [none] := by
  rw [sample_append]
  rfl

@[simp] theorem sample_item (k before : Nat) (xs : List (Option α)) (a : α) :
    sample k before (xs ++ [some a]) =
      sample k before xs ++ if (before + items xs + 1) % k = 0 then [some a] else [] := by
  rw [sample_append]
  simp [sample]

theorem sample_map (f : α → β) (k before : Nat) (xs : List (Option α)) :
    sample k before (xs.map (Option.map f)) = (sample k before xs).map (Option.map f) := by
  induction xs generalizing before with
  | nil => rfl
  | cons x xs ih =>
    cases x with
    | none => simp only [List.map_cons, Option.map_none, sample, ih]
    | some a =>
      simp only [List.map_cons, Option.map_some, sample, ih]
      split <;> simp

theorem sample_sublist (k before : Nat) (xs : List (Option α)) :
    (sample k before xs).Sublist xs := by
  induction xs generalizing before with
  | nil => exact .slnil
  | cons x xs ih =>
    cases x with
    | none => exact (ih before).cons_cons none
    | some a =>
      rw [sample]
      split
      · exact (ih (before + 1)).cons_cons (some a)
      · exact (ih (before + 1)).cons (some a)

/-- Every `k`-th element of one round whose first element is number `before + 1`. -/
def everyNth (k : Nat) : Nat → List α → List α
  | _, [] => []
  | before, a :: as =>
    if (before + 1) % k = 0 then a :: everyNth k (before + 1) as
    else everyNth k (before + 1) as

@[simp] theorem everyNth_item (k before : Nat) (as : List α) (a : α) :
    everyNth k before (as ++ [a]) =
      everyNth k before as ++ if (before + as.length + 1) % k = 0 then [a] else [] := by
  induction as generalizing before with
  | nil => simp [everyNth]
  | cons b bs ih =>
    have shift : before + 1 + bs.length = before + (b :: bs).length := by simp; omega
    simp only [List.cons_append, everyNth, ih, shift]
    split <;> simp

/-- Round `r` of a sampled stream holds every `k`-th item of round `r`, numbered
from the items of all rounds before it. -/
theorem splitRounds_sample (k : Nat) (xs : List (Option α)) :
    (splitRounds (sample k 0 xs)).1.length = (splitRounds xs).1.length ∧
    (∀ r round, (splitRounds xs).1[r]? = some round →
      (splitRounds (sample k 0 xs)).1[r]? =
        some (everyNth k (((splitRounds xs).1.take r).map List.length).sum round)) ∧
    (splitRounds (sample k 0 xs)).2 =
      everyNth k (((splitRounds xs).1).map List.length).sum (splitRounds xs).2 := by
  induction xs using List.reverseRecOn with
  | nil => simp [sample, everyNth]
  | append_singleton xs x ih =>
    obtain ⟨sameLength, rounds, current⟩ := ih
    cases x with
    | some a =>
      have number := items_eq_splitRounds xs
      rw [sample_item, splitRounds_item]
      simp only [Nat.zero_add, everyNth_item, ← number, ← current]
      split
      · rw [splitRounds_item]
        exact ⟨sameLength, rounds, rfl⟩
      · rw [List.append_nil, List.append_nil]
        exact ⟨sameLength, rounds, rfl⟩
    | none =>
      rw [sample_end, splitRounds_end, splitRounds_end]
      refine ⟨by simp [sameLength], ?_, by simp [everyNth]⟩
      intro r round at_r
      rcases Nat.lt_trichotomy r (splitRounds xs).1.length with earlier | last | past
      · rw [List.getElem?_append_left earlier] at at_r
        rw [List.getElem?_append_left (by omega), List.take_append_of_le_length (by omega)]
        exact rounds r round at_r
      · subst last
        simp only [List.getElem?_append_right, Nat.le_refl, Nat.sub_self,
          List.getElem?_cons_zero, Option.some.injEq] at at_r
        subst at_r
        rw [List.getElem?_append_right (by omega), sameLength, Nat.sub_self]
        simp [current]
      · rw [List.getElem?_eq_none (by simp; omega)] at at_r
        cases at_r

end StreamingPoc.Lib
