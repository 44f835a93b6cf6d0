import Mathlib.Data.List.Induction
import Mathlib.Logic.Function.Basic

/-!
# Truncating writes to a store

A store maps keys to contents; a write replaces what its key holds. After a list
of writes a key holds what was last written to it. A writer that means every
content to survive must give every content a key of its own.
-/
namespace StreamingPoc.Lib

variable {κ ν : Type} [DecidableEq κ]

def writeAll (store : κ → Option ν) (writes : List (κ × ν)) : κ → Option ν :=
  writes.foldl (fun store w => Function.update store w.1 (some w.2)) store

theorem writeAll_append (store : κ → Option ν) (xs ys : List (κ × ν)) :
    writeAll store (xs ++ ys) = writeAll (writeAll store xs) ys := by
  simp [writeAll]

theorem writeAll_append_singleton (store : κ → Option ν) (xs : List (κ × ν)) (w : κ × ν) :
    writeAll store (xs ++ [w]) = Function.update (writeAll store xs) w.1 (some w.2) := by
  simp [writeAll]

/-- A key that was not written keeps its content. -/
theorem writeAll_frame (store : κ → Option ν) (writes : List (κ × ν)) {k : κ}
    (untouched : ∀ w ∈ writes, w.1 ≠ k) : writeAll store writes k = store k := by
  induction writes using List.reverseRecOn with
  | nil => rfl
  | append_singleton xs w ih =>
    have other : k ≠ w.1 := (untouched w (by simp)).symm
    rw [writeAll_append_singleton, Function.update_of_ne other]
    exact ih fun x member => untouched x (List.mem_append_left _ member)

/-- A key that was written with one content only holds it. -/
theorem writeAll_of_unique (store : κ → Option ν) (writes : List (κ × ν)) {k : κ} {v : ν}
    (written : (k, v) ∈ writes) (unique : ∀ w ∈ writes, w.1 = k → w.2 = v) :
    writeAll store writes k = some v := by
  induction writes using List.reverseRecOn with
  | nil => cases written
  | append_singleton xs w ih =>
    rw [writeAll_append_singleton]
    by_cases last : w.1 = k
    · rw [← last, Function.update_self, unique w (by simp) last]
    · rw [Function.update_of_ne (Ne.symm last)]
      have earlier : (k, v) ∈ xs := by
        rcases List.mem_append.mp written with early | late
        · exact early
        · rw [← List.mem_singleton.mp late] at last
          exact absurd rfl last
      exact ih earlier fun x member => unique x (List.mem_append_left _ member)

end StreamingPoc.Lib
