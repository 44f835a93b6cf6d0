import Mathlib.Data.Int.Notation
import Mathlib.Data.List.Basic
import Mathlib.Tactic.Ring

/-!
# Times with a least distance

The times at which a paced sender acts, oldest first: each comes at least `gap`
after every one before it. What holds of neighbours adds up over the list, and
limits the number of times in a window.
-/
namespace StreamingPoc.Lib

def Spaced (gap : Int) (times : List Int) : Prop := times.Pairwise fun a b => a + gap ≤ b

variable {gap : Int} {times : List Int}

theorem spaced_append_singleton {t : Int} :
    Spaced gap (times ++ [t]) ↔ Spaced gap times ∧ ∀ x ∈ times, x + gap ≤ t := by
  unfold Spaced
  rw [List.pairwise_append]
  simp

/-- A time that is late enough is late enough later. -/
theorem Spaced.later {t t' : Int} (spaced : Spaced gap (times ++ [t])) (later : t ≤ t') :
    Spaced gap (times ++ [t']) := by
  rw [spaced_append_singleton] at spaced ⊢
  refine ⟨spaced.1, fun x member => ?_⟩
  have := spaced.2 x member
  omega

/-- Distances add up. -/
theorem Spaced.getElem_le (spaced : Spaced gap times) {j k : Nat} (lt : j < k)
    (within : k < times.length) : times[j] + (k - j : Int) * gap ≤ times[k] := by
  induction k with
  | zero => omega
  | succ k ih =>
    have last : times[k] + gap ≤ times[k + 1] :=
      List.pairwise_iff_getElem.mp spaced k (k + 1) (by omega) within (by omega)
    rcases Nat.lt_or_eq_of_le (Nat.le_of_lt_succ lt) with earlier | rfl
    · have before := ih earlier (by omega)
      have split : ((k + 1 : Nat) - j : Int) * gap = (k - j : Int) * gap + gap := by
        push_cast
        ring
      omega
    · have one : ((j + 1 : Nat) - j : Int) * gap = gap := by
        push_cast
        ring
      omega

/-- A half-open window of length `w * gap` holds at most `w` of the times. -/
theorem Spaced.window_length_le (spaced : Spaced gap times) (start : Int) (w : Nat) :
    (times.filter fun t => decide (start ≤ t ∧ t < start + w * gap)).length ≤ w := by
  have spaced_window : Spaced gap (times.filter fun t => decide (start ≤ t ∧ t < start + w * gap)) :=
    List.Pairwise.filter _ spaced
  generalize window : (times.filter fun t => decide (start ≤ t ∧ t < start + w * gap)) = inside
  rw [window] at spaced_window
  by_contra more
  have within : ∀ t ∈ inside, start ≤ t ∧ t < start + w * gap := by
    intro t member
    rw [← window, List.mem_filter, decide_eq_true_eq] at member
    exact member.2
  have first := within inside[0] (List.getElem_mem (by omega))
  have last := within inside[w] (List.getElem_mem (by omega))
  rcases Nat.eq_zero_or_pos w with rfl | positive
  · omega
  · have apart := spaced_window.getElem_le positive (by omega)
    simp only [Nat.cast_zero, sub_zero] at apart
    omega

/-! ### Marks -/

/-- A sender that is paced by marks: each event has the mark it was started from, and
comes between this and the next mark. The marks have the distance, the events jitter. -/
structure Marked (gap : Int) (events : List (Int × Int)) : Prop where
  started : ∀ e ∈ events, e.1 ≤ e.2
  apart : events.Pairwise fun e e' => e.1 + gap ≤ e'.1 ∧ e.2 ≤ e'.1

namespace Marked

variable {events : List (Int × Int)}

theorem append_singleton (marked : Marked gap events) {mark time : Int} (started : mark ≤ time)
    (next : ∀ e ∈ events, e.1 + gap ≤ mark ∧ e.2 ≤ mark) : Marked gap (events ++ [(mark, time)]) := by
  constructor
  · intro e member
    rcases List.mem_append.mp member with before | last
    · exact marked.started e before
    · rw [List.mem_singleton.mp last]
      exact started
  · apply List.pairwise_append.mpr
    refine ⟨marked.apart, List.pairwise_singleton _ _, fun e member e' last => ?_⟩
    rw [List.mem_singleton.mp last]
    exact next e member

theorem marks_spaced (marked : Marked gap events) : Spaced gap (events.map Prod.fst) :=
  List.pairwise_map.mpr (marked.apart.imp And.left)

/-- Of the distance between two events the jitter takes at most one gap. -/
theorem getElem_le (marked : Marked gap events) {j k : Nat} (lt : j < k) (within : k < events.length) :
    events[j].2 + (k - j - 1 : Int) * gap ≤ events[k].2 := by
  have after_next : events[j].2 ≤ events[j + 1].1 :=
    (List.pairwise_iff_getElem.mp marked.apart j (j + 1) (by omega) (by omega) (by omega)).2
  have last := marked.started events[k] (List.getElem_mem within)
  rcases Nat.lt_or_eq_of_le (Nat.succ_le_of_lt lt) with more | one
  · have marks := marked.marks_spaced.getElem_le more (by simpa using within)
    simp only [List.getElem_map, Nat.succ_eq_add_one] at marks
    have count : (k : Int) - (j + 1 : Nat) = k - j - 1 := by omega
    rw [count] at marks
    omega
  · subst one
    have none : ((j.succ : Nat) : Int) - j - 1 = 0 := by omega
    rw [none, Int.zero_mul]
    have same : events[j + 1].1 ≤ events[j.succ].2 := last
    omega

/-- So one event more fits into a window. -/
theorem window_length_le (marked : Marked gap events) (start : Int) (w : Nat) :
    ((events.map Prod.snd).filter fun t => decide (start ≤ t ∧ t < start + w * gap)).length ≤ w + 1 := by
  rw [List.filter_map, List.length_map]
  have marked_window : Marked gap
      (events.filter ((fun t => decide (start ≤ t ∧ t < start + w * gap)) ∘ Prod.snd)) :=
    ⟨fun e member => marked.started e (List.mem_filter.mp member).1, List.Pairwise.filter _ marked.apart⟩
  generalize window : (events.filter ((fun t => decide (start ≤ t ∧ t < start + w * gap)) ∘ Prod.snd)) = inside
  rw [window] at marked_window
  by_contra more
  have within : ∀ e ∈ inside, start ≤ e.2 ∧ e.2 < start + w * gap := by
    intro e member
    rw [← window, List.mem_filter, Function.comp_apply, decide_eq_true_eq] at member
    exact member.2
  have first := within inside[0] (List.getElem_mem (by omega))
  have last := within inside[w + 1] (List.getElem_mem (by omega))
  have apart := marked_window.getElem_le (Nat.succ_pos w) (by omega : w + 1 < inside.length)
  have count : ((w + 1 : Nat) : Int) - (0 : Nat) - 1 = w := by omega
  simp only [Nat.succ_eq_add_one] at apart
  rw [count] at apart
  omega

end Marked

end StreamingPoc.Lib
