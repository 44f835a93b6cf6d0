import Mathlib.Data.List.Basic

/-!
# Sections of a marked stream

A stream of marks: a head begins a section, an item belongs to the section that
is open, junk belongs to nothing. `sections` says what the sections of a stream
are; `Reader` is the machine that finds them in one pass, with the finished
sections and the one that is open.
-/
namespace StreamingPoc.Lib

variable {α β : Type}

inductive Mark (α : Type) where
  | head
  | item (a : α)
  | junk
  deriving DecidableEq, Repr

/-- The items up to the next head. -/
def body : List (Mark α) → List α
  | [] => []
  | .head :: _ => []
  | .item a :: ms => a :: body ms
  | .junk :: ms => body ms

/-- The items after each head. What stands before the first head is in no section. -/
def sections : List (Mark α) → List (List α)
  | [] => []
  | .head :: ms => body ms :: sections ms
  | .item _ :: ms => sections ms
  | .junk :: ms => sections ms

theorem body_append_head (xs ys : List (Mark α)) : body (xs ++ .head :: ys) = body xs := by
  induction xs with
  | nil => rfl
  | cons m xs ih => cases m <;> simp [body, ih]

/-- A stream that begins with a head starts its sections afresh. -/
theorem sections_append_head (xs ys : List (Mark α)) :
    sections (xs ++ .head :: ys) = sections xs ++ sections (.head :: ys) := by
  induction xs with
  | nil => rfl
  | cons m xs ih => cases m <;> simp [sections, body_append_head, ih]

theorem body_append_junk (xs ys : List (Mark α)) : body (xs ++ .junk :: ys) = body (xs ++ ys) := by
  induction xs with
  | nil => rfl
  | cons m xs ih => cases m <;> simp [body, ih]

theorem sections_append_junk (xs ys : List (Mark α)) :
    sections (xs ++ .junk :: ys) = sections (xs ++ ys) := by
  induction xs with
  | nil => rfl
  | cons m xs ih => cases m <;> simp [sections, body_append_junk, ih]

/-- An item before the first head changes nothing. -/
theorem sections_append_orphan (xs ys : List (Mark α)) (a : α) (headless : .head ∉ xs) :
    sections (xs ++ .item a :: ys) = sections (xs ++ ys) := by
  induction xs with
  | nil => rfl
  | cons m xs ih =>
    have rest := ih fun member => headless (List.mem_cons_of_mem m member)
    cases m with
    | head => exact absurd List.mem_cons_self headless
    | item b => simpa [sections] using rest
    | junk => simpa [sections] using rest

def Mark.item? : Mark α → Option α
  | .item a => some a
  | _ => none

/-- The items of a stream, whatever sections they are in. -/
def Mark.items (ms : List (Mark α)) : List α := ms.filterMap Mark.item?

@[simp] theorem Mark.items_item (a : α) (ms : List (Mark α)) :
    Mark.items (.item a :: ms) = a :: Mark.items ms := rfl

@[simp] theorem Mark.items_junk (ms : List (Mark α)) : Mark.items (.junk :: ms) = Mark.items ms := rfl

theorem body_append_headless (xs ys : List (Mark α)) (headless : .head ∉ xs) :
    body (xs ++ ys) = Mark.items xs ++ body ys := by
  induction xs with
  | nil => rfl
  | cons m xs ih =>
    have rest := ih fun member => headless (List.mem_cons_of_mem m member)
    cases m with
    | head => exact absurd List.mem_cons_self headless
    | item a => simpa [body] using rest
    | junk => simpa [body] using rest

theorem sections_append_headless (xs ys : List (Mark α)) (headless : .head ∉ xs) :
    sections (xs ++ ys) = sections ys := by
  induction xs with
  | nil => rfl
  | cons m xs ih =>
    have rest := ih fun member => headless (List.mem_cons_of_mem m member)
    cases m with
    | head => exact absurd List.mem_cons_self headless
    | item a => simpa [sections] using rest
    | junk => simpa [sections] using rest

/-- A stream that was written section by section. -/
theorem sections_flatMap (blocks : List (List (Mark α))) (headless : ∀ block ∈ blocks, .head ∉ block) :
    sections (blocks.flatMap fun block => .head :: block) = blocks.map Mark.items := by
  induction blocks with
  | nil => rfl
  | cons block blocks ih =>
    have first := headless block List.mem_cons_self
    have rest := ih fun block member => headless block (List.mem_cons_of_mem _ member)
    have next : body (blocks.flatMap fun block => .head :: block) = [] := by
      cases blocks <;> rfl
    rw [List.flatMap_cons, List.cons_append, sections, body_append_headless _ _ first, next,
      sections_append_headless _ _ first, rest, List.append_nil, List.map_cons]

theorem sections_length (ms : List (Mark α)) :
    (sections ms).length = ms.countP (· matches .head) := by
  induction ms with
  | nil => rfl
  | cons m ms ih => cases m <;> simp [sections, ih]

theorem sections_ne_nil {ms : List (Mark α)} (head : .head ∈ ms) : sections ms ≠ [] := by
  intro none_found
  have count := sections_length ms
  rw [none_found, List.length_nil, eq_comm, List.countP_eq_zero] at count
  exact count _ head rfl

/-- The machine: finished sections, and the open one once a head was read. -/
structure Reader (α : Type) where
  finished : List (List α)
  current : Option (List α)

namespace Reader

def initial : Reader α := { finished := [], current := none }

def read (r : Reader α) : Mark α → Reader α
  | .head => { finished := r.finished ++ r.current.toList, current := some [] }
  | .item a => { r with current := r.current.map (· ++ [a]) }
  | .junk => r

/-- The sections when the stream ends here. -/
def close (r : Reader α) : List (List α) := r.finished ++ r.current.toList

theorem close_foldl_open (ms : List (Mark α)) (finished : List (List α)) (open_ : List α) :
    (ms.foldl read { finished, current := some open_ }).close =
      finished ++ (open_ ++ body ms) :: sections ms := by
  induction ms generalizing finished open_ with
  | nil => simp [close, body, sections]
  | cons m ms ih => cases m <;> simp [read, body, sections, ih]

/-- One pass finds the sections. -/
theorem close_foldl (ms : List (Mark α)) : (ms.foldl read initial).close = sections ms := by
  unfold initial
  induction ms with
  | nil => rfl
  | cons m ms ih =>
    cases m with
    | head => simp [read, sections, close_foldl_open]
    | item a => simpa [read, sections] using ih
    | junk => simpa [read, sections] using ih

theorem current_isSome_foldl (ms : List (Mark α)) (r : Reader α) :
    (ms.foldl read r).current.isSome = (r.current.isSome || ms.any (· matches .head)) := by
  induction ms generalizing r with
  | nil => simp
  | cons m ms ih => cases m <;> simp [read, ih]

end Reader

end StreamingPoc.Lib
