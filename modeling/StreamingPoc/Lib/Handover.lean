import Mathlib.Data.List.Basic

/-!
# Handing over without copying

One cell of a heap is in use and changed in place; a hand-over gives its reference
away and goes on with a fresh cell. `current` is never among the references that
were given away, so what is read through those no longer changes.
-/
namespace StreamingPoc.Lib

variable {β : Type}

structure Handover (β : Type) where
  cells : List β
  current : Nat
  handed : List Nat
  alive : current < cells.length
  handedAlive : ∀ r ∈ handed, r < cells.length
  apart : current ∉ handed

namespace Handover

def start (b : β) : Handover β where
  cells := [b]
  current := 0
  handed := []
  alive := Nat.zero_lt_one
  handedAlive r member := by cases member
  apart := List.not_mem_nil

def value (h : Handover β) : β :=
  have := h.alive
  h.cells[h.current]

/-- A change of the cell in use, in place. -/
def modify (h : Handover β) (b : β) : Handover β where
  cells := h.cells.set h.current b
  current := h.current
  handed := h.handed
  alive := by
    rw [List.length_set]
    exact h.alive
  handedAlive := by
    rw [List.length_set]
    exact h.handedAlive
  apart := h.apart

/-- The reference of the cell in use is given away, `b` is in a fresh cell. -/
def handOver (h : Handover β) (b : β) : Handover β where
  cells := h.cells ++ [b]
  current := h.cells.length
  handed := h.handed ++ [h.current]
  alive := by simp
  handedAlive r member := by
    have alive := h.alive
    rw [List.length_append, List.length_singleton]
    rcases List.mem_append.mp member with before | last
    · exact Nat.lt_succ_of_lt (h.handedAlive r before)
    · obtain rfl := List.mem_singleton.mp last
      omega
  apart member := by
    have alive := h.alive
    rcases List.mem_append.mp member with before | last
    · exact Nat.lt_irrefl _ (h.handedAlive _ before)
    · have := List.mem_singleton.mp last
      omega

/-- What is read through the `k`-th reference that was given away. -/
def read (h : Handover β) (k : Nat) : Option β := h.handed[k]?.bind fun r => h.cells[r]?

@[simp] theorem value_start (b : β) : (start b).value = b := rfl

@[simp] theorem read_start (b : β) (k : Nat) : (start b).read k = none := by
  simp [read, start]

@[simp] theorem value_modify (h : Handover β) (b : β) : (h.modify b).value = b := by
  simp [value, modify]

@[simp] theorem value_handOver (h : Handover β) (b : β) : (h.handOver b).value = b := by
  simp [value, handOver]

/-- Changes in place are not seen by those who were given a reference. -/
@[simp] theorem read_modify (h : Handover β) (b : β) (k : Nat) : (h.modify b).read k = h.read k := by
  unfold read modify
  cases given : h.handed[k]? with
  | none => rfl
  | some r =>
    have other : h.current ≠ r := by
      rintro rfl
      exact h.apart (List.mem_of_getElem? given)
    exact List.getElem?_set_ne other

theorem read_handOver (h : Handover β) (b : β) (k : Nat) :
    (h.handOver b).read k = if k = h.handed.length then some h.value else h.read k := by
  have alive := h.alive
  unfold read handOver
  rcases Nat.lt_trichotomy k h.handed.length with before | last | past
  · rw [if_neg (by omega), List.getElem?_append_left before, List.getElem?_eq_getElem before]
    exact List.getElem?_append_left (h.handedAlive _ (List.getElem_mem before))
  · rw [if_pos last, last, List.getElem?_append_right (Nat.le_refl _), Nat.sub_self]
    exact (List.getElem?_append_left alive).trans (List.getElem?_eq_getElem alive)
  · rw [if_neg (by omega), List.getElem?_eq_none (by simp; omega), List.getElem?_eq_none (by omega)]
    rfl

/-- Reads as a list: the `k`-th reference gives the `k`-th of these. -/
def Reads (h : Handover β) (values : List β) : Prop :=
  h.handed.length = values.length ∧ ∀ k, h.read k = values[k]?

theorem reads_start (b : β) : (start b).Reads [] := by
  constructor
  · rfl
  · simp

theorem Reads.modify {h : Handover β} {values : List β} (reads : h.Reads values) (b : β) :
    (h.modify b).Reads values := by
  refine ⟨reads.1, fun k => ?_⟩
  rw [read_modify]
  exact reads.2 k

theorem Reads.handOver {h : Handover β} {values : List β} (reads : h.Reads values) (b : β) :
    (h.handOver b).Reads (values ++ [h.value]) := by
  obtain ⟨count, each⟩ := reads
  refine ⟨by simp [Handover.handOver, count], fun k => ?_⟩
  rw [read_handOver, each]
  split
  · rename_i last
    rw [last, count]
    simp
  · rename_i other
    rcases Nat.lt_or_ge k values.length with before | past
    · rw [List.getElem?_append_left before]
    · rw [List.getElem?_eq_none past, List.getElem?_eq_none (by simp; omega)]

end Handover

end StreamingPoc.Lib
