import StreamingPoc.Esp.BlockWriter
import StreamingPoc.Lib.Transition

/-!
# DbagPublisher.publish

The loops of `publish` (DbagPublisher.java:66-114) after the publisher is
connected, as steps between the tests of the loops. An action carries the clock
reading its step takes. No SDK call throws. `blockSize` and `bufferSize` are the
ints of the command line, `lcount` and `numRows` are 20 and 100000 in the source.
-/
namespace StreamingPoc.Esp.DbagPublisher

open StreamingPoc.Lib

structure Options where
  blockSize : Int32
  bufferSize : Int32
  lcount : Nat
  numRows : Nat
  deriving DecidableEq, Repr

/-- `setBufferSize` is called for a positive size only. -/
def Options.buffered (o : Options) : Bool := 0 < o.bufferSize

/-- Where `publish` is; `lcount` is the decremented counter. -/
inductive Pc where
  | whileTest (lcount : Nat)
  | forTest (lcount : Nat) (start : Int64) (i : Nat)
  | report (lcount : Nat) (start : Int64)
  | stopped
  | arithmeticException
  deriving DecidableEq, Repr

/-- The locals of `publish`, the SDK calls it made and the numbers it printed. -/
structure Publish extends BlockWriter where
  pc : Pc
  longValue : Int64
  intValue : Int32
  printed : List (Int64 × Int64)
  deriving DecidableEq, Repr

/-- The columns of a row are the counters. -/
def Publish.columns (s : Publish) : List Column := [.long s.longValue, .integer s.intValue]

/-- The body of the for loop. -/
def row (o : Options) (i : Nat) (s : Publish) : Publish :=
  { s with
    toBlockWriter :=
      s.toBlockWriter.row o.blockSize o.bufferSize ((i : Int).tmod o.blockSize.toInt = 0) s.columns
    longValue := s.longValue + 1
    intValue := s.intValue + 1 }

inductive Act where
  | enter (currentTimeMillis : Int64)
  | leave
  | row
  | endRows
  | report (currentTimeMillis : Int64)
  deriving DecidableEq, Repr

def step (o : Options) (s : Publish) : Act → Option Publish
  | .enter now =>
    match s.pc with
    | .whileTest (lcount + 1) => some { s with pc := .forTest lcount now 0 }
    | _ => none
  | .leave =>
    match s.pc with
    | .whileTest 0 => some { s with pc := .stopped }
    | _ => none
  | .row =>
    match s.pc with
    | .forTest lcount start i =>
      if i < o.numRows then some { row o i s with pc := .forTest lcount start (i + 1) } else none
    | _ => none
  | .endRows =>
    match s.pc with
    | .forTest lcount start i =>
      if i < o.numRows then none
      else
        some { s with
          calls := s.calls ++ if lcount = 0 then [.commit] else []
          pc := .report lcount start }
    | _ => none
  | .report now =>
    match s.pc with
    | .report lcount start =>
      let millis := now - start
      if millis = 0 then some { s with pc := .arithmeticException }
      else
        some { s with
          printed := s.printed ++ [(millis, Int64.ofNat o.numRows / millis * 1000)]
          pc := .whileTest lcount }
    | _ => none

def Publish.initial (o : Options) : Publish where
  toBlockWriter := .initial
  pc := .whileTest o.lcount
  longValue := 0
  intValue := 0
  printed := []

/-- The rows of the last batch are written and `publisher.commit()` is next. -/
def AtCommit (o : Options) (s : Publish) : Prop :=
  ∃ start i, s.pc = .forTest 0 start i ∧ ¬ i < o.numRows

/-! ## What a step does -/

/-- The steps with their guards. -/
inductive StepFrom (o : Options) (s : Publish) : Act → Publish → Prop
  | enter (lcount : Nat) (now : Int64) (pc : s.pc = .whileTest (lcount + 1)) :
      StepFrom o s (.enter now) { s with pc := .forTest lcount now 0 }
  | leave (pc : s.pc = .whileTest 0) : StepFrom o s .leave { s with pc := .stopped }
  | row (lcount : Nat) (start : Int64) (i : Nat) (pc : s.pc = .forTest lcount start i)
      (more : i < o.numRows) :
      StepFrom o s .row { row o i s with pc := .forTest lcount start (i + 1) }
  | endRows (lcount : Nat) (start : Int64) (i : Nat) (pc : s.pc = .forTest lcount start i)
      (done : ¬ i < o.numRows) :
      StepFrom o s .endRows
        { s with
          calls := s.calls ++ if lcount = 0 then [.commit] else []
          pc := .report lcount start }
  | abort (lcount : Nat) (start now : Int64) (pc : s.pc = .report lcount start)
      (zero : now - start = 0) :
      StepFrom o s (.report now) { s with pc := .arithmeticException }
  | report (lcount : Nat) (start now : Int64) (pc : s.pc = .report lcount start)
      (nonzero : now - start ≠ 0) :
      StepFrom o s (.report now)
        { s with
          printed := s.printed ++ [(now - start, Int64.ofNat o.numRows / (now - start) * 1000)]
          pc := .whileTest lcount }

theorem step_from {o : Options} {s t : Publish} {act : Act} (move : step o s act = some t) :
    StepFrom o s act t := by
  cases act with
  | enter now =>
    simp only [step] at move
    split at move
    · rename_i lcount pc
      cases move
      exact .enter lcount now pc
    · cases move
  | leave =>
    simp only [step] at move
    split at move
    · rename_i pc
      cases move
      exact .leave pc
    · cases move
  | row =>
    simp only [step] at move
    split at move
    · rename_i lcount start i pc
      split at move
      · rename_i more
        cases move
        exact .row lcount start i pc more
      · cases move
    · cases move
  | endRows =>
    simp only [step] at move
    split at move
    · rename_i lcount start i pc
      split at move
      · cases move
      · rename_i done
        cases move
        exact .endRows lcount start i pc done
    · cases move
  | report now =>
    simp only [step] at move
    split at move
    · rename_i lcount start pc
      split at move
      · rename_i zero
        cases move
        exact .abort lcount start now pc zero
      · rename_i nonzero
        cases move
        exact .report lcount start now pc nonzero
    · cases move

/-- The row that a pass of the for loop writes. -/
def Publish.nextRow (s : Publish) : Row := { operation := some .insert, columns := s.columns }

/-- The kinds of pass `i`. -/
abbrev RowStep (o : Options) (i : Nat) (s t : Publish) : Prop :=
  BlockWriter.Pass o.blockSize o.bufferSize ((i : Int).tmod o.blockSize.toInt = 0) s.columns
    s.toBlockWriter t.toBlockWriter

theorem row_cases (o : Options) (i : Nat) (s : Publish) : RowStep o i s (row o i s) :=
  BlockWriter.row_cases o.blockSize o.bufferSize _ s.columns s.toBlockWriter

/-- A step is a pass of the for loop, the step that may commit, or it makes no
call and is at no row. -/
inductive Moves (o : Options) (s t : Publish) : Prop where
  | row (lcount : Nat) (start : Int64) (i : Nat) (more : i < o.numRows)
      (pc : s.pc = .forTest lcount start i) (pc' : t.pc = .forTest lcount start (i + 1))
      (pass : RowStep o i s t)
  | enter (lcount : Nat) (start : Int64) (pc' : t.pc = .forTest lcount start 0)
      (flag : t.inblock = s.inblock) (calls : t.calls = s.calls)
  | quiet (pc' : ∀ lcount start i, t.pc ≠ .forTest lcount start i) (flag : t.inblock = s.inblock)
      (calls : t.calls = s.calls ∨ t.calls = s.calls ++ [.commit])

theorem step_cases {o : Options} {s t : Publish} {act : Act} (move : step o s act = some t) :
    Moves o s t := by
  cases step_from move with
  | enter lcount now pc => exact .enter lcount now rfl rfl rfl
  | leave pc => exact .quiet (by simp) rfl (.inl rfl)
  | row lcount start i pc more =>
    exact .row lcount start i more pc rfl (row_cases o i s)
  | endRows lcount start i pc done =>
    refine .quiet (by simp) rfl ?_
    by_cases last : lcount = 0 <;> simp [last]
  | abort lcount start now pc zero => exact .quiet (by simp) rfl (.inl rfl)
  | report lcount start now pc nonzero => exact .quiet (by simp) rfl (.inl rfl)

end StreamingPoc.Esp.DbagPublisher
