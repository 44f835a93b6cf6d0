import StreamingPoc.Lib.Transition
import StreamingPoc.Netfeed.Histogram

/-!
# RTTClient.doSubcribe

The two loops of `doSubcribe` (RTTClient.java:198-241): over the events of the
subscriber, and over the rows of a DATA message. What the SDK answers and the
clock reading of a row come with the action. A switch without a default passes
over all other event types. An exception ends the method.
-/
namespace StreamingPoc.Sap.RTTClient.DoSubcribe

open StreamingPoc.Lib StreamingPoc.Netfeed

inductive EventType where
  | syncStart
  | syncEnd
  | data
  | closed
  | error (text : String)
  | dataLost
  | disconnected
  | other
  deriving DecidableEq, Repr

inductive Printed where
  | line (text : String)
  | report (hi : Histogram)
  deriving DecidableEq, Repr

inductive Pc where
  | getNextEvent
  | hasNextRow
  | returned
  | threw (thrown : Thrown)
  deriving DecidableEq, Repr

/-- The locals of `doSubcribe`, the field `hi` and what was printed. -/
structure Subscriber where
  pc : Pc
  hi : Histogram
  histoCounter : Nat
  printed : List Printed
  deriving DecidableEq, Repr

def Subscriber.println (s : Subscriber) (text : String) : Subscriber :=
  { s with printed := s.printed ++ [.line text] }

/-- The switch over the type of an event. -/
def Subscriber.handle (s : Subscriber) : EventType → Subscriber
  | .syncStart => s.println "<sync-start/>"
  | .syncEnd => s.println "<sync-end/>"
  | .data => { s with pc := .hasNextRow }
  | .closed => { s with pc := .returned }
  | .error text => s.println ("<error msg=\"" ++ text ++ "\" />")
  | .dataLost => s.println "<data-lost/>"
  | .disconnected => { s.println "<disconnected/>" with pc := .returned }
  | .other => s

/-- The body of the loop over the rows. -/
def Subscriber.nextRow (s : Subscriber) (row : Sample) : Subscriber :=
  match s.hi.recordValue row.latency with
  | .error thrown => { s with pc := .threw thrown }
  | .ok hi =>
    if s.histoCounter + 1 = 200000 then
      { s with
        printed := s.printed ++ [.report hi]
        hi := .create (secondsToNanos 10)
        histoCounter := 0 }
    else { s with hi, histoCounter := s.histoCounter + 1 }

inductive Act where
  | event (type : EventType)
  | row (row : Sample)
  | noMoreRows
  deriving DecidableEq, Repr

def step (s : Subscriber) : Act → Option Subscriber
  | .event type =>
    match s.pc with
    | .getNextEvent => some (s.handle type)
    | _ => none
  | .row row =>
    match s.pc with
    | .hasNextRow => some (s.nextRow row)
    | _ => none
  | .noMoreRows =>
    match s.pc with
    | .hasNextRow => some { s with pc := .getNextEvent }
    | _ => none

def Subscriber.initial : Subscriber where
  pc := .getNextEvent
  hi := .create (secondsToNanos 10)
  histoCounter := 0
  printed := []

/-- The rows that were read, in order, whatever the messages they came in. -/
def rows (acts : List Act) : List Sample :=
  acts.filterMap fun act =>
    match act with
    | .row row => some row
    | _ => none

def Printed.hi : Printed → Option Histogram
  | .report hi => some hi
  | .line _ => none

/-- The histograms that were printed, in order. -/
def Subscriber.reports (s : Subscriber) : List Histogram := s.printed.filterMap Printed.hi

/-- A step is a row, or it touches neither the histogram nor the counter. -/
inductive Moves (s : Subscriber) (act : Act) (t : Subscriber) : Prop where
  | row (row : Sample) (reading : s.pc = .hasNextRow) (is_row : act = .row row)
      (done : t = s.nextRow row)
  | quiet (notRow : rows [act] = []) (hi : t.hi = s.hi) (counter : t.histoCounter = s.histoCounter)
      (reports : t.reports = s.reports) (alive : ∀ thrown, t.pc ≠ .threw thrown)

theorem step_cases {s t : Subscriber} {act : Act} (move : step s act = some t) : Moves s act t := by
  cases act with
  | event type =>
    simp only [step] at move
    split at move
    · rename_i pc
      cases move
      cases type with
      | data => exact .quiet rfl rfl rfl rfl (by simp [Subscriber.handle])
      | closed => exact .quiet rfl rfl rfl rfl (by simp [Subscriber.handle])
      | disconnected =>
        refine .quiet rfl rfl rfl ?_ (by simp [Subscriber.handle])
        simp [Subscriber.handle, Subscriber.println, Subscriber.reports, Printed.hi]
      | _ =>
        refine .quiet rfl rfl rfl ?_ (by simp [Subscriber.handle, Subscriber.println, pc])
        simp [Subscriber.handle, Subscriber.println, Subscriber.reports, Printed.hi]
    · cases move
  | row row =>
    simp only [step] at move
    split at move
    · rename_i pc
      cases move
      exact .row row pc rfl rfl
    · cases move
  | noMoreRows =>
    simp only [step] at move
    split at move
    · cases move
      exact .quiet rfl rfl rfl rfl (by simp)
    · cases move

/-- After CLOSED, DISCONNECTED or an exception there is no step. -/
theorem no_step_after_end {s : Subscriber} (ended : s.pc ≠ .getNextEvent ∧ s.pc ≠ .hasNextRow)
    (act : Act) : step s act = none := by
  cases act with
  | event type =>
    simp only [step]
    split
    · exact absurd ‹_› ended.1
    · rfl
  | row row =>
    simp only [step]
    split
    · exact absurd ‹_› ended.2
    · rfl
  | noMoreRows =>
    simp only [step]
    split
    · exact absurd ‹_› ended.2
    · rfl

end StreamingPoc.Sap.RTTClient.DoSubcribe
