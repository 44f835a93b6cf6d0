import StreamingPoc.Esp.Millitime
import StreamingPoc.Esp.Sdk
import StreamingPoc.Lib.Transition

/-!
# dbagPublisher::loadData

The loops of `loadData` (dbag_publisher.cpp:138-228) after the publisher is
connected, as steps between the tests of the loops. An action carries the clock
reading its step takes; `rc n` is what SDK call number `n` returns, and the
program exits at the first one that is not 0. `lcount` and `numRows` are 20 and
100000 in the source.
-/
namespace StreamingPoc.Esp.LoadData

open StreamingPoc.Lib

structure Options where
  blockSize : Int32
  bufferSize : Int32
  lcount : Nat
  numRows : Nat
  deriving DecidableEq, Repr

/-- `esp_publisher_options_set_buffersize` takes a `uint32_t`; without the call
there is no buffer. -/
def Options.queueSize (o : Options) : UInt32 :=
  if o.bufferSize ≠ 0 then o.bufferSize.toUInt32 else 0

def Options.buffered (o : Options) : Bool := 0 < o.queueSize

structure CsRec where
  nanoTime : UInt64
  bidPrc : ℚ
  askPrc : ℚ
  bidQty : Int32
  askQty : Int32
  deriving DecidableEq, Repr

/-- Where `loadData` is; `lcount` is the decremented counter. -/
inductive Pc where
  | whileTest (lcount : Nat)
  | forTest (lcount : Nat) (start : TimeVal) (n : Nat)
  | report (lcount : Nat) (start : TimeVal)
  | stopped
  | errorExit
  | divisionByZero
  deriving DecidableEq, Repr

/-- The locals of `loadData`, the SDK calls it made and the numbers it printed. -/
structure Load where
  pc : Pc
  csrec : CsRec
  inblock : Bool
  calls : List Call
  printed : List (Int64 × Int64)
  deriving DecidableEq, Repr

/-- Calls in turn; the calls made up to one that fails, or all of them. -/
def issue (rc : Nat → Int32) : List Call → List Call → Except (List Call) (List Call)
  | done, [] => .ok done
  | done, call :: calls =>
    if rc done.length ≠ 0 then .error (done ++ [call]) else issue rc (done ++ [call]) calls

def Load.startTransaction (rc : Nat → Int32) (s : Load) : Except (List Call) Load :=
  (issue rc s.calls [.startTransaction]).map fun calls => { s with calls, inblock := true }

/-- The prices and the time of day, of which only the nanoseconds are kept. -/
def Load.fill (tvNsec : Int64) (s : Load) : Load :=
  { s with csrec := { s.csrec with bidPrc := 100, askPrc := 101, nanoTime := tvNsec.toUInt64 } }

/-- The calls that write `csrec` as a row. -/
def CsRec.writeCalls (csrec : CsRec) : List Call :=
  [.startRow, .setOperation .insert, .set (.long csrec.nanoTime.toInt64), .set (.float csrec.bidPrc),
    .set (.float csrec.askPrc), .set (.integer csrec.bidQty), .set (.integer csrec.askQty), .endRow]

/-- The body of the for loop. The code that would end a block is commented out. -/
def row (o : Options) (rc : Nat → Int32) (tvNsec : Int64) (s : Load) : Except (List Call) Load := do
  let s ← if o.blockSize ≠ 0 ∧ ¬ s.inblock then s.startTransaction rc else .ok s
  let s := s.fill tvNsec
  let calls ← issue rc s.calls s.csrec.writeCalls
  let calls ← if o.bufferSize = 0 then issue rc calls [.publish] else .ok calls
  return { s with calls }

/-- The rate of a report; `numRows` is an int and widened to long. -/
def perSec (o : Options) (millis : Int64) : Int64 := Int64.ofNat o.numRows / millis * 1000

inductive Act where
  | enter (start : TimeVal)
  | leave
  | row (tvNsec : Int64)
  | endRows
  | report (endTime : TimeVal)
  deriving DecidableEq, Repr

/-- `print_error_and_exit` after the calls made. -/
def Load.continue (s : Load) (pc : Pc) : Except (List Call) Load → Load
  | .ok next => { next with pc }
  | .error calls => { s with pc := .errorExit, calls }

def step (o : Options) (rc : Nat → Int32) (s : Load) : Act → Option Load
  | .enter start =>
    match s.pc with
    | .whileTest (lcount + 1) => some { s with pc := .forTest lcount start 0 }
    | _ => none
  | .leave =>
    match s.pc with
    | .whileTest 0 => some { s with pc := .stopped }
    | _ => none
  | .row tvNsec =>
    match s.pc with
    | .forTest lcount start n =>
      if n < o.numRows then some (s.continue (.forTest lcount start (n + 1)) (row o rc tvNsec s))
      else none
    | _ => none
  | .endRows =>
    match s.pc with
    | .forTest lcount start n =>
      if n < o.numRows then none
      else
        let committed := issue rc s.calls (if lcount = 0 then [.commit] else [])
        some (s.continue (.report lcount start) (committed.map fun calls => { s with calls }))
    | _ => none
  | .report endTime =>
    match s.pc with
    | .report lcount start =>
      let millis := millitime start endTime
      if millis = 0 then some { s with pc := .divisionByZero }
      else
        some { s with
          printed := s.printed ++ [(millis, perSec o millis)]
          pc := .whileTest lcount }
    | _ => none

/-- `opub` is a global, so its record is zero. -/
def Load.initial (o : Options) : Load where
  pc := .whileTest o.lcount
  csrec := { nanoTime := 0, bidPrc := 0, askPrc := 0, bidQty := 0, askQty := 0 }
  inblock := false
  calls := []
  printed := []

/-- The rows of the last batch are written and `esp_publisher_commit` is next. -/
def AtCommit (o : Options) (s : Load) : Prop :=
  ∃ start n, s.pc = .forTest 0 start n ∧ ¬ n < o.numRows

/-! ## What a step does -/

/-- The steps with their guards. -/
inductive StepFrom (o : Options) (rc : Nat → Int32) (s : Load) : Act → Load → Prop
  | enter (lcount : Nat) (start : TimeVal) (pc : s.pc = .whileTest (lcount + 1)) :
      StepFrom o rc s (.enter start) { s with pc := .forTest lcount start 0 }
  | leave (pc : s.pc = .whileTest 0) : StepFrom o rc s .leave { s with pc := .stopped }
  | row (lcount : Nat) (start : TimeVal) (n : Nat) (tvNsec : Int64)
      (pc : s.pc = .forTest lcount start n) (more : n < o.numRows) :
      StepFrom o rc s (.row tvNsec)
        (s.continue (.forTest lcount start (n + 1)) (row o rc tvNsec s))
  | endRows (lcount : Nat) (start : TimeVal) (n : Nat) (pc : s.pc = .forTest lcount start n)
      (done : ¬ n < o.numRows) :
      StepFrom o rc s .endRows (s.continue (.report lcount start)
        ((issue rc s.calls (if lcount = 0 then [.commit] else [])).map fun calls => { s with calls }))
  | abort (lcount : Nat) (start endTime : TimeVal) (pc : s.pc = .report lcount start)
      (zero : millitime start endTime = 0) :
      StepFrom o rc s (.report endTime) { s with pc := .divisionByZero }
  | report (lcount : Nat) (start endTime : TimeVal) (pc : s.pc = .report lcount start)
      (nonzero : millitime start endTime ≠ 0) :
      StepFrom o rc s (.report endTime)
        { s with
          printed := s.printed ++ [(millitime start endTime, perSec o (millitime start endTime))]
          pc := .whileTest lcount }

theorem step_from {o : Options} {rc : Nat → Int32} {s t : Load} {act : Act}
    (move : step o rc s act = some t) : StepFrom o rc s act t := by
  cases act with
  | enter start =>
    simp only [step] at move
    split at move
    · rename_i lcount pc
      cases move
      exact .enter lcount start pc
    · cases move
  | leave =>
    simp only [step] at move
    split at move
    · rename_i pc
      cases move
      exact .leave pc
    · cases move
  | row tvNsec =>
    simp only [step] at move
    split at move
    · rename_i lcount start n pc
      split at move
      · rename_i more
        cases move
        exact .row lcount start n tvNsec pc more
      · cases move
    · cases move
  | endRows =>
    simp only [step] at move
    split at move
    · rename_i lcount start n pc
      split at move
      · cases move
      · rename_i done
        cases move
        exact .endRows lcount start n pc done
    · cases move
  | report endTime =>
    simp only [step] at move
    split at move
    · rename_i lcount start pc
      split at move
      · rename_i zero
        cases move
        exact .abort lcount start endTime pc zero
      · rename_i nonzero
        cases move
        exact .report lcount start endTime pc nonzero
    · cases move

theorem issue_succeeds {rc : Nat → Int32} (succeed : ∀ n, rc n = 0) (done calls : List Call) :
    issue rc done calls = .ok (done ++ calls) := by
  induction calls generalizing done with
  | nil => simp [issue]
  | cons call calls ih => simp [issue, succeed, ih]

/-- The calls of a pass of the for loop. -/
def Load.rowCalls (o : Options) (tvNsec : Int64) (s : Load) : List Call :=
  (if o.blockSize ≠ 0 ∧ ¬ s.inblock then [.startTransaction] else []) ++
    ((s.fill tvNsec).csrec.writeCalls ++ if o.bufferSize = 0 then [.publish] else [])

/-- Of calls in turn all are made, or those up to one that fails. -/
theorem issue_made (rc : Nat → Int32) (done calls : List Call) :
    issue rc done calls = .ok (done ++ calls) ∨
      ∃ made, made <+: calls ∧ issue rc done calls = .error (done ++ made) := by
  induction calls generalizing done with
  | nil => exact .inl (by simp [issue])
  | cons call calls ih =>
    unfold issue
    split
    · exact .inr ⟨[call], by simp, rfl⟩
    · rcases ih (done ++ [call]) with all | ⟨made, before, failed⟩
      · exact .inl (by simp [all])
      · exact .inr ⟨call :: made, by simpa using before, by simp [failed]⟩

theorem issue_append (rc : Nat → Int32) (done xs ys : List Call) :
    issue rc done (xs ++ ys) = (issue rc done xs).bind fun done => issue rc done ys := by
  induction xs generalizing done with
  | nil => simp [issue, Except.bind]
  | cons call xs ih =>
    rw [List.cons_append, issue, issue]
    split
    · simp [Except.bind]
    · exact ih (done ++ [call])

/-- A pass does the same whatever fails, as far as it comes. -/
theorem row_eq (o : Options) (rc : Nat → Int32) (tvNsec : Int64) (s : Load) :
    row o rc tvNsec s = (issue rc s.calls (s.rowCalls o tvNsec)).map fun calls =>
      { s.fill tvNsec with inblock := s.inblock || o.blockSize ≠ 0, calls } := by
  have written : ∀ (u : Load) (calls : List Call),
      ((issue rc calls (u.fill tvNsec).csrec.writeCalls).bind fun calls =>
        if o.bufferSize = 0 then
          (issue rc calls [.publish]).bind fun calls => .ok { u.fill tvNsec with calls }
        else .ok { u.fill tvNsec with calls }) =
      (issue rc calls ((u.fill tvNsec).csrec.writeCalls ++ if o.bufferSize = 0 then [.publish] else [])).map
        fun calls => { u.fill tvNsec with calls } := by
    intro u calls
    rw [issue_append]
    cases issue rc calls (u.fill tvNsec).csrec.writeCalls with
    | error calls => rfl
    | ok calls =>
      by_cases direct : o.bufferSize = 0
      · simp only [if_pos direct, Except.bind]
        cases issue rc calls [.publish] <;> rfl
      · simp [if_neg direct, Except.bind, Except.map, issue]
  unfold row Load.rowCalls Load.startTransaction
  rw [issue_append]
  by_cases opens : o.blockSize ≠ 0 ∧ ¬ s.inblock
  · rw [if_pos opens, if_pos opens]
    have flag : true = (s.inblock || decide (o.blockSize ≠ 0)) := by simp [opens.1]
    rw [← flag]
    cases issue rc s.calls [.startTransaction] with
    | error calls => rfl
    | ok calls => exact written { s with calls, inblock := true } calls
  · have flag : s.inblock = (s.inblock || decide (o.blockSize ≠ 0)) := by
      cases inblock : s.inblock <;> simp_all
    rw [if_neg opens, if_neg opens, ← flag]
    exact written s s.calls

/-- The calls of a pass, made in turn. -/
theorem row_calls (o : Options) (rc : Nat → Int32) (tvNsec : Int64) (s : Load) :
    (row o rc tvNsec s).map Load.calls = issue rc s.calls (s.rowCalls o tvNsec) := by
  rw [row_eq]
  cases issue rc s.calls (s.rowCalls o tvNsec) <;> rfl

/-- A pass in which no call fails. -/
theorem row_succeeds {rc : Nat → Int32} (succeed : ∀ n, rc n = 0) (o : Options) (tvNsec : Int64)
    (s : Load) :
    ∃ next, row o rc tvNsec s = .ok next ∧ next.calls = s.calls ++ s.rowCalls o tvNsec ∧
      next.inblock = (s.inblock || o.blockSize ≠ 0) ∧ next.printed = s.printed := by
  rw [row_eq, issue_succeeds succeed]
  exact ⟨_, rfl, rfl, rfl, rfl⟩

/-- A step is a pass of the for loop, the entry of a batch, or it makes no call
but the commit and is at no row. -/
inductive Moves (o : Options) (s t : Load) : Prop where
  | row (tvNsec : Int64) (more : 0 < o.numRows) (flag : t.inblock = (s.inblock || o.blockSize ≠ 0))
      (calls : t.calls = s.calls ++ s.rowCalls o tvNsec)
  | enter (lcount : Nat) (start : TimeVal) (pc' : t.pc = .forTest lcount start 0)
      (flag : t.inblock = s.inblock) (calls : t.calls = s.calls)
  | quiet (pc' : ∀ lcount start n, t.pc ≠ .forTest lcount start n) (flag : t.inblock = s.inblock)
      (calls : t.calls = s.calls ∨ t.calls = s.calls ++ [.commit])

theorem step_cases {o : Options} {rc : Nat → Int32} (succeed : ∀ n, rc n = 0) {s t : Load}
    {act : Act} (move : step o rc s act = some t) : Moves o s t := by
  cases step_from move with
  | enter lcount start pc => exact .enter lcount start rfl rfl rfl
  | leave pc => exact .quiet (by simp) rfl (.inl rfl)
  | row lcount start n tvNsec pc more =>
    obtain ⟨next, passed, calls, flag, -⟩ := row_succeeds succeed o tvNsec s
    rw [passed]
    exact .row tvNsec (Nat.zero_lt_of_lt more) flag calls
  | endRows lcount start n pc done =>
    rw [issue_succeeds succeed]
    refine .quiet (by simp [Load.continue, Except.map]) rfl ?_
    by_cases last : lcount = 0 <;> simp [Load.continue, Except.map, last]
  | abort lcount start endTime pc zero => exact .quiet (by simp) rfl (.inl rfl)
  | report lcount start endTime pc nonzero => exact .quiet (by simp) rfl (.inl rfl)

end StreamingPoc.Esp.LoadData
