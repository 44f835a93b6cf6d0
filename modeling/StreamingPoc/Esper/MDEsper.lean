import StreamingPoc.Lib.Transition
import StreamingPoc.Netfeed.Histogram

/-!
# The time-stamp listener of MDEsper

`update` of the listener on `TimeStampsStatement` (MDEsper.java:51-66). A call
takes null or an array of some length; each element is one step, which carries
its `nanoTimeStamp` and the clock reading. An exception ends the call and goes
to the engine; the next call finds the fields as they were left.
-/
namespace StreamingPoc.Esper.MDEsper

open StreamingPoc.Lib StreamingPoc.Netfeed

inductive Pc where
  | idle
  | loop (i length : Nat)
  deriving DecidableEq, Repr

/-- The listener with `histo`, what it printed and what it threw. -/
structure Listener where
  pc : Pc
  histo : Histogram
  count : Nat
  printed : List Histogram
  escaped : List Thrown
  deriving DecidableEq, Repr

/-- The body of the for loop. -/
def Listener.newEvent (s : Listener) (i length : Nat) (event : Sample) : Listener :=
  match s.histo.recordValue event.latency with
  | .error thrown => { s with pc := .idle, escaped := s.escaped ++ [thrown] }
  | .ok histo =>
    if 100000000 < s.count + 1 then
      { s with
        pc := .loop (i + 1) length
        count := 0
        printed := s.printed ++ [histo]
        histo := histo.reset }
    else { s with pc := .loop (i + 1) length, histo, count := s.count + 1 }

/-- A call with null or with an array of the given length, the next element of
the array, and the end of the loop. -/
inductive Act where
  | update (newEvents : Option Nat)
  | newEvent (event : Sample)
  | endOfArray
  deriving DecidableEq, Repr

def step (s : Listener) : Act → Option Listener
  | .update newEvents =>
    match s.pc with
    | .idle =>
      match newEvents with
      | some length => some { s with pc := .loop 0 length }
      | none => some s
    | _ => none
  | .newEvent event =>
    match s.pc with
    | .loop i length => if i < length then some (s.newEvent i length event) else none
    | _ => none
  | .endOfArray =>
    match s.pc with
    | .loop i length => if i < length then none else some { s with pc := .idle }
    | _ => none

def Listener.initial : Listener where
  pc := .idle
  histo := .create (secondsToNanos 10)
  count := 0
  printed := []
  escaped := []

/-- The events that were handled, in order, whatever the arrays they came in. -/
def events (acts : List Act) : List Sample :=
  acts.filterMap fun act =>
    match act with
    | .newEvent event => some event
    | _ => none

/-- A step is an event, or it touches nothing but the program point. -/
inductive Moves (s : Listener) (act : Act) (t : Listener) : Prop where
  | event (i length : Nat) (event : Sample) (is_event : act = .newEvent event)
      (done : t = s.newEvent i length event)
  | quiet (notEvent : events [act] = []) (histo : t.histo = s.histo) (count : t.count = s.count)
      (printed : t.printed = s.printed) (escaped : t.escaped = s.escaped)

theorem step_cases {s t : Listener} {act : Act} (move : step s act = some t) : Moves s act t := by
  cases act with
  | update newEvents =>
    simp only [step] at move
    split at move
    · split at move
      · cases move
        exact .quiet rfl rfl rfl rfl rfl
      · cases move
        exact .quiet rfl rfl rfl rfl rfl
    · cases move
  | newEvent event =>
    simp only [step] at move
    split at move
    · rename_i i length pc
      split at move
      · cases move
        exact .event i length event rfl rfl
      · cases move
    · cases move
  | endOfArray =>
    simp only [step] at move
    split at move
    · split at move
      · cases move
      · cases move
        exact .quiet rfl rfl rfl rfl rfl
    · cases move

end StreamingPoc.Esper.MDEsper
