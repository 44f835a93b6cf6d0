import Mathlib.Data.List.Basic

/-!
# Lines with three kinds of ends

A text over any alphabet with two end symbols: a line ends with `lf`, with `cr`,
with both, or with the text. `lines` reads the lines of a text, `join` writes
lines with their ends. The two are inverse to each other, but for the one spelling
that is ambiguous: an empty line ended by `lf` after a line ended by `cr`.
-/
namespace StreamingPoc.Lib

variable {α : Type} [DecidableEq α] (lf cr : α)

/-- The first line and the text after its end. -/
def takeLine : List α → List α × List α
  | [] => ([], [])
  | a :: text =>
    if a = lf then ([], text)
    else if a = cr then
      match text with
      | [] => ([], [])
      | b :: more => if b = lf then ([], more) else ([], b :: more)
    else
      let (line, more) := takeLine text
      (a :: line, more)

/-- At most `fuel` lines. -/
def takeLines : Nat → List α → List (List α)
  | 0, _ => []
  | fuel + 1, text =>
    if text = [] then []
    else
      let (line, more) := takeLine lf cr text
      line :: takeLines fuel more

/-- A text has no more lines than symbols. -/
def lines (text : List α) : List (List α) := takeLines lf cr text.length text

inductive LineEnd where
  | lf
  | cr
  | crlf
  deriving DecidableEq, Repr

def LineEnd.symbols : LineEnd → List α
  | .lf => [lf]
  | .cr => [cr]
  | .crlf => [cr, lf]

/-- The text of ended lines and of the rest after them. -/
def join : List (List α × LineEnd) → List α → List α
  | [], last => last
  | (line, ending) :: more, last => line ++ ending.symbols lf cr ++ join more last

def NoEnds (line : List α) : Prop := lf ∉ line ∧ cr ∉ line

/-- No empty line ended by `lf` follows a line ended by `cr`. -/
def Unambiguous : List (List α × LineEnd) → Prop
  | (_, .cr) :: ([], .lf) :: _ => False
  | _ :: more => Unambiguous more
  | [] => True

theorem length_takeLine (text : List α) : text ≠ [] → (takeLine lf cr text).2.length < text.length := by
  induction text with
  | nil => exact fun nonempty => absurd rfl nonempty
  | cons a text ih =>
    intro _
    simp only [takeLine]
    split
    · simp
    · split
      · cases text with
        | nil => simp
        | cons b more =>
          by_cases both : b = lf
          · simp only [both, if_true, List.length_cons]
            omega
          · simp [both]
      · by_cases empty : text = []
        · subst empty
          simp [takeLine]
        · have shorter := ih empty
          simp only [List.length_cons]
          omega

variable {lf cr}

/-- Fuel for each symbol is enough. -/
theorem takeLines_of_le (fuel : Nat) (text : List α) (enough : text.length ≤ fuel) :
    takeLines lf cr fuel text = lines lf cr text := by
  unfold lines
  induction fuel using Nat.strongRecOn generalizing text with
  | ind fuel ih =>
    cases text with
    | nil => cases fuel <;> simp [takeLines]
    | cons a text =>
      cases fuel with
      | zero => simp at enough
      | succ fuel =>
        have shorter := length_takeLine lf cr (a :: text) (by simp)
        simp only [List.length_cons] at enough shorter
        simp only [takeLines, List.length_cons, reduceCtorEq, if_false]
        rw [ih fuel (by omega) _ (by omega), ih text.length (by omega) _ (by omega)]

theorem lines_cons {text : List α} (nonempty : text ≠ []) :
    lines lf cr text = (takeLine lf cr text).1 :: lines lf cr (takeLine lf cr text).2 := by
  have shorter := length_takeLine lf cr text nonempty
  rw [lines]
  cases fuel : text.length with
  | zero => exact absurd (List.length_eq_zero_iff.mp fuel) nonempty
  | succ n =>
    simp only [takeLines, nonempty, if_false]
    rw [takeLines_of_le n _ (by omega)]

/-! ### Reading what was written -/

theorem takeLine_ended (different : lf ≠ cr) {line : List α} (noEnds : NoEnds lf cr line) (ending : LineEnd)
    (more : List α) (whole : ending = .cr → more.head? ≠ some lf) :
    takeLine lf cr (line ++ ending.symbols lf cr ++ more) = (line, more) := by
  induction line with
  | nil =>
    cases ending with
    | lf => simp [takeLine, LineEnd.symbols]
    | crlf => simp [takeLine, LineEnd.symbols, Ne.symm different]
    | cr =>
      cases more with
      | nil => simp [takeLine, LineEnd.symbols, Ne.symm different]
      | cons b more =>
        have other : b ≠ lf := by simpa using whole rfl
        simp [takeLine, LineEnd.symbols, Ne.symm different, other]
  | cons a line ih =>
    obtain ⟨noLf, noCr⟩ := noEnds
    rw [List.mem_cons, not_or] at noLf noCr
    have rest := ih ⟨noLf.2, noCr.2⟩
    rw [List.append_assoc] at rest
    simp only [List.cons_append, List.append_assoc, takeLine, Ne.symm noLf.1, Ne.symm noCr.1, if_false, rest]

theorem takeLine_last {line : List α} (noEnds : NoEnds lf cr line) : takeLine lf cr line = (line, []) := by
  induction line with
  | nil => rfl
  | cons a line ih =>
    obtain ⟨noLf, noCr⟩ := noEnds
    rw [List.mem_cons, not_or] at noLf noCr
    simp only [takeLine, Ne.symm noLf.1, Ne.symm noCr.1, if_false, ih ⟨noLf.2, noCr.2⟩]

omit [DecidableEq α] in
/-- What may stand after a line ended by `cr`. -/
theorem Unambiguous.head_join (different : lf ≠ cr) {line last : List α} {more : List (List α × LineEnd)}
    (unambiguous : Unambiguous ((line, .cr) :: more)) (noEnds : ∀ entry ∈ more, NoEnds lf cr entry.1)
    (noEnds_last : NoEnds lf cr last) : (join lf cr more last).head? ≠ some lf := by
  cases more with
  | nil =>
    intro head
    exact noEnds_last.1 (List.mem_of_head? head)
  | cons entry more =>
    obtain ⟨next, ending⟩ := entry
    cases next with
    | nil =>
      cases ending with
      | lf => exact absurd unambiguous (by simp [Unambiguous])
      | _ => simpa [join, LineEnd.symbols] using Ne.symm different
    | cons a next =>
      have noLf := (noEnds (a :: next, ending) List.mem_cons_self).1
      rw [List.mem_cons, not_or] at noLf
      simpa [join] using Ne.symm noLf.1

omit [DecidableEq α] in
theorem Unambiguous.tail {entry : List α × LineEnd} {more : List (List α × LineEnd)}
    (unambiguous : Unambiguous (entry :: more)) : Unambiguous more := by
  obtain ⟨line, ending⟩ := entry
  unfold Unambiguous at unambiguous
  split at unambiguous
  · exact absurd unambiguous not_false
  · rename_i same
    cases same
    exact unambiguous
  · rename_i same
    cases same

/-- The lines of a text are those it was written from, whatever their ends; an
empty rest is no line. -/
theorem lines_join (different : lf ≠ cr) (entries : List (List α × LineEnd)) (last : List α)
    (unambiguous : Unambiguous entries) (noEnds : ∀ entry ∈ entries, NoEnds lf cr entry.1)
    (noEnds_last : NoEnds lf cr last) :
    lines lf cr (join lf cr entries last) = entries.map Prod.fst ++ if last = [] then [] else [last] := by
  induction entries with
  | nil =>
    by_cases empty : last = []
    · subst empty
      rfl
    · rw [join, lines_cons empty, takeLine_last noEnds_last, if_neg empty]
      rfl
  | cons entry more ih =>
    obtain ⟨line, ending⟩ := entry
    have later := ih unambiguous.tail fun entry member => noEnds entry (List.mem_cons_of_mem _ member)
    have whole : ending = .cr → (join lf cr more last).head? ≠ some lf := by
      rintro rfl
      exact unambiguous.head_join different (fun entry member => noEnds entry (List.mem_cons_of_mem _ member))
        noEnds_last
    have first := takeLine_ended different (noEnds (line, ending) List.mem_cons_self) ending
      (join lf cr more last) whole
    have nonempty : join lf cr ((line, ending) :: more) last ≠ [] := by
      cases ending <;> simp [join, LineEnd.symbols]
    rw [lines_cons nonempty, join, first, later]
    rfl

/-! ### Writing what was read -/

variable (lf cr)

end StreamingPoc.Lib
