import StreamingPoc.Esp.BlockWriter
import StreamingPoc.Lib.Transition

/-!
# RTTClient.doPublish

The loops of `doPublish` (RTTClient.java:79-127) after the publisher is
connected, as steps between the tests of the loops. An action carries the clock
readings its step takes. No SDK call throws. The four tunables are the locals
`blockSize`, `bufferSize`, `loopRecs` and `count` with the values 0, 1000,
100000 and 400 in the source. `i` counts from 1 to `loopRecs` in every round, and
being an int it wraps where `loopRecs` is the greatest int. The pause before a
row and the printed throughput, a double, are left out.
-/
namespace StreamingPoc.Sap.RTTClient

open StreamingPoc.Lib StreamingPoc.Esp

structure Options where
  blockSize : Int32
  bufferSize : Int32
  loopRecs : Int32
  count : Int32
  deriving DecidableEq, Repr

def Options.buffered (o : Options) : Bool := 0 < o.bufferSize

/-- Where `doPublish` is; in a round `count` is the decremented counter. -/
inductive Pc where
  | whileTest (count : Int32)
  | forTest (count : Int32) (start : Int64) (i : Int32)
  | commit
  | returned
  deriving DecidableEq, Repr

/-- The locals of `doPublish`, the SDK calls it made and the milliseconds it
printed, of the rounds and of the commit. -/
structure Publish extends BlockWriter where
  pc : Pc
  printed : List Int64
  deriving DecidableEq, Repr

/-- The columns of a row; the prices are the doubles 3.124 and 3.555. -/
def rowColumns (nanoTime : Int64) : List Column :=
  [.long nanoTime, .float (7034622617952715 / 2 ^ 51), .float (8005148337651057 / 2 ^ 51),
    .integer 100, .integer 200]

/-- The body of the for loop. -/
def row (o : Options) (i : Int32) (nanoTime : Int64) (s : Publish) : Publish :=
  { s with
    toBlockWriter := s.toBlockWriter.row o.blockSize o.bufferSize (i % o.blockSize = 0) (rowColumns nanoTime) }

inductive Act where
  | enter (currentTimeMillis : Int64)
  | leave
  | row (nanoTime : Int64)
  | endRows (currentTimeMillis : Int64)
  | commit (start finish : Int64)
  deriving DecidableEq, Repr

def step (o : Options) (s : Publish) : Act → Option Publish
  | .enter now =>
    match s.pc with
    | .whileTest count => if 0 < count then some { s with pc := .forTest (count - 1) now 1 } else none
    | _ => none
  | .leave =>
    match s.pc with
    | .whileTest count => if 0 < count then none else some { s with pc := .commit }
    | _ => none
  | .row nanoTime =>
    match s.pc with
    | .forTest count start i =>
      if i ≤ o.loopRecs then some { row o i nanoTime s with pc := .forTest count start (i + 1) }
      else none
    | _ => none
  | .endRows now =>
    match s.pc with
    | .forTest count start i =>
      if i ≤ o.loopRecs then none
      else some { s with pc := .whileTest count, printed := s.printed ++ [now - start] }
    | _ => none
  | .commit start finish =>
    match s.pc with
    | .commit =>
      some { s with
        calls := s.calls ++ [.commit]
        pc := .returned
        printed := s.printed ++ [finish - start] }
    | _ => none

def Publish.initial (o : Options) : Publish where
  toBlockWriter := .initial
  pc := .whileTest o.count
  printed := []

/-! ## What a step does -/

/-- The steps with their guards. -/
inductive StepFrom (o : Options) (s : Publish) : Act → Publish → Prop
  | enter (count : Int32) (now : Int64) (pc : s.pc = .whileTest count) (positive : 0 < count) :
      StepFrom o s (.enter now) { s with pc := .forTest (count - 1) now 1 }
  | leave (count : Int32) (pc : s.pc = .whileTest count) (done : ¬ 0 < count) :
      StepFrom o s .leave { s with pc := .commit }
  | row (count : Int32) (start : Int64) (i : Int32) (nanoTime : Int64)
      (pc : s.pc = .forTest count start i) (more : i ≤ o.loopRecs) :
      StepFrom o s (.row nanoTime) { row o i nanoTime s with pc := .forTest count start (i + 1) }
  | endRows (count : Int32) (start : Int64) (i : Int32) (now : Int64)
      (pc : s.pc = .forTest count start i) (done : ¬ i ≤ o.loopRecs) :
      StepFrom o s (.endRows now) { s with pc := .whileTest count, printed := s.printed ++ [now - start] }
  | commit (start finish : Int64) (pc : s.pc = .commit) :
      StepFrom o s (.commit start finish)
        { s with
          calls := s.calls ++ [.commit]
          pc := .returned
          printed := s.printed ++ [finish - start] }

theorem step_from {o : Options} {s t : Publish} {act : Act} (move : step o s act = some t) :
    StepFrom o s act t := by
  cases act with
  | enter now =>
    simp only [step] at move
    split at move
    · rename_i count pc
      split at move
      · rename_i positive
        cases move
        exact .enter count now pc positive
      · cases move
    · cases move
  | leave =>
    simp only [step] at move
    split at move
    · rename_i count pc
      split at move
      · cases move
      · rename_i done
        cases move
        exact .leave count pc done
    · cases move
  | row nanoTime =>
    simp only [step] at move
    split at move
    · rename_i count start i pc
      split at move
      · rename_i more
        cases move
        exact .row count start i nanoTime pc more
      · cases move
    · cases move
  | endRows now =>
    simp only [step] at move
    split at move
    · rename_i count start i pc
      split at move
      · cases move
      · rename_i done
        cases move
        exact .endRows count start i now pc done
    · cases move
  | commit start finish =>
    simp only [step] at move
    split at move
    · rename_i pc
      cases move
      exact .commit start finish pc
    · cases move

/-- The kinds of pass `i`. -/
abbrev RowStep (o : Options) (i : Int32) (nanoTime : Int64) (s t : Publish) : Prop :=
  BlockWriter.Pass o.blockSize o.bufferSize (i % o.blockSize = 0) (rowColumns nanoTime)
    s.toBlockWriter t.toBlockWriter

theorem row_cases (o : Options) (i : Int32) (nanoTime : Int64) (s : Publish) :
    RowStep o i nanoTime s (row o i nanoTime s) :=
  BlockWriter.row_cases o.blockSize o.bufferSize _ (rowColumns nanoTime) s.toBlockWriter

/-- With blocks a pass leaves the block open, or it ends it at a multiple of the
block size. -/
theorem row_in_block {o : Options} (blocks : 0 < o.blockSize) (i : Int32) (nanoTime : Int64) (s : Publish) :
    (row o i nanoTime s).inblock = decide (i % o.blockSize ≠ 0) ∧
      (row o i nanoTime s).calls = s.calls ++ (openCalls s.inblock ++ writeCalls (rowColumns nanoTime) ++
        if i % o.blockSize = 0 then .endBlock :: sendCalls o.bufferSize else []) := by
  cases row_cases o i nanoTime s with
  | single noBlocks flag calls => exact absurd blocks noBlocks
  | stay blocks inside flag calls =>
    rw [decide_eq_false_iff_not] at inside
    rw [flag, calls, if_neg inside, List.append_nil]
    exact ⟨(decide_eq_true inside).symm, rfl⟩
  | close blocks atBorder flag calls =>
    rw [decide_eq_true_iff] at atBorder
    rw [flag, calls, if_pos atBorder]
    exact ⟨(decide_eq_false (not_not.mpr atBorder)).symm, rfl⟩

end StreamingPoc.Sap.RTTClient
