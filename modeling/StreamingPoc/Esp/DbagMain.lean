import StreamingPoc.Esp.DbagRows
import StreamingPoc.Java.Text

/-!
# DbagPublisher.main

The whole program (DbagPublisher.java:29-146): the arguments, the connection, the
loops of `publish` and the way out, where every SDK call may throw. `main` prints
three kinds of exceptions and lets the others go, behind a `finally` that stops
the SDK. `publish` also stops it, when it comes to its end.
-/
namespace StreamingPoc.Esp.DbagPublisher

open StreamingPoc.Lib StreamingPoc.Java

inductive Thrown where
  | loginException
  | entityNotFoundException
  | serverErrorException
  | ioException
  | illegalArgumentException
  | numberFormatException
  | arithmeticException
  | otherException
  deriving DecidableEq, Repr

/-- The exceptions with a `catch` of their own. -/
def Thrown.caught : Thrown → Bool
  | .loginException | .entityNotFoundException | .serverErrorException => true
  | _ => false

inductive SdkCall where
  | start
  | createUri
  | createCredentials
  | getProject
  | connectProject
  | createOptions (bufferSize : Int32)
  | createPublisher
  | getStream
  | connectPublisher
  | getMessageWriterCached
  | getRelativeRowWriter
  | stop
  deriving DecidableEq, Repr

/-- The calls between the test of the URI and the sizes. -/
def connectCalls : List SdkCall := [.createCredentials, .getProject, .connectProject]

/-- The calls between the sizes and the loops. -/
def Options.createCalls (o : Options) : List SdkCall :=
  (if 0 < o.bufferSize then [.createOptions o.bufferSize] else []) ++
    [.createPublisher, .getStream, .connectPublisher, .getMessageWriterCached, .getRelativeRowWriter]

/-- The third and the fourth argument; `none` is a `NumberFormatException`. -/
def sizes (args : List JString) : Option (Int32 × Int32) := do
  let blockSize ← match args[2]? with
    | some text => parseInt text
    | none => some 5
  let bufferSize ← match args[3]? with
    | some text => parseInt text
    | none => some 0
  return (blockSize, bufferSize)

def Options.ofSizes (blockSize bufferSize : Int32) : Options :=
  { blockSize, bufferSize, lcount := 20, numRows := 100000 }

/-- Before the calls `left`, of which the list may be empty: then the sizes are
read, or the loops run. -/
inductive MainPc where
  | begin
  | uri
  | uriType
  | connecting (left : List SdkCall)
  | creating (left : List SdkCall)
  | publishEnd
  | finally (pending : Option Thrown)
  | exited (thrown : Option Thrown)
  deriving DecidableEq, Repr

/-- `made` are the calls of the loops that took effect, `traces` the exceptions whose
stack trace was printed. -/
structure Main where
  pc : MainPc
  options : Options
  publish : Publish
  made : List Call
  calls : List SdkCall
  traces : List Thrown
  deriving DecidableEq, Repr

/-- A `throw` inside the `try`. -/
def Main.throw (s : Main) (e : Thrown) : Main :=
  if e.caught then { s with pc := .finally none, traces := s.traces ++ [e] }
  else { s with pc := .finally (some e) }

def Main.issue (s : Main) (call : SdkCall) (thrown : Option Thrown) (next : MainPc) : Main :=
  match thrown with
  | none => { s with calls := s.calls ++ [call], pc := next }
  | some e => { s with calls := s.calls ++ [call] }.throw e

/-- The next SDK call with what it throws; the test of the URI; the sizes; a step of
the loops; and one in which a call throws, when `made` of its calls took effect. -/
inductive MainAct where
  | call (thrown : Option Thrown)
  | uriType (project : Bool)
  | sizes
  | publish (act : Act)
  | publishThrows (act : Act) (made : Nat) (e : Thrown)

def mainStep (args : List JString) (s : Main) : MainAct → Option Main
  | .call thrown =>
    match s.pc with
    | .begin =>
      if args.length < 2 then some { s with pc := .exited none }
      else
        -- outside of the `try`
        some { s with calls := s.calls ++ [.start], pc := if thrown = none then .uri else .exited thrown }
    | .uri => some (s.issue .createUri thrown .uriType)
    | .connecting (call :: left) => some (s.issue call thrown (.connecting left))
    | .creating (call :: left) => some (s.issue call thrown (.creating left))
    | .publishEnd => some (s.issue .stop thrown (.finally none))
    | .finally pending => some { s with calls := s.calls ++ [.stop], pc := .exited (thrown.or pending) }
    | _ => none
  | .uriType project =>
    match s.pc with
    | .uriType =>
      some (if project then { s with pc := .connecting connectCalls } else s.throw .illegalArgumentException)
    | _ => none
  | .sizes =>
    match s.pc with
    | .connecting [] =>
      match sizes args with
      | some (blockSize, bufferSize) =>
        let o := Options.ofSizes blockSize bufferSize
        some { s with options := o, publish := .initial o, pc := .creating o.createCalls }
      | none => some (s.throw .numberFormatException)
    | _ => none
  | .publish act =>
    match s.pc with
    | .creating [] =>
      (step s.options s.publish act).map fun publish =>
        let s := { s with publish, made := publish.calls }
        match publish.pc with
        | .stopped => { s with pc := .publishEnd }
        | .arithmeticException => s.throw .arithmeticException
        | _ => s
    | _ => none
  | .publishThrows act made e =>
    match s.pc with
    | .creating [] =>
      (step s.options s.publish act).bind fun publish =>
        if s.publish.calls.length < publish.calls.length then
          some ({ s with made := publish.calls.take (s.publish.calls.length + made) }.throw e)
        else none
    | _ => none

def Main.initial : Main :=
  let o := Options.ofSizes 5 0
  { pc := .begin, options := o, publish := .initial o, made := [], calls := [], traces := [] }

/-- The rows that were sent or queued. -/
def Main.server (s : Main) : List Row := (Esp.delivered s.options.buffered s.made).handed

/-! ## Runs -/

/-- What was made of the loops is a first part of what the loops do. -/
structure FirstPart (args : List JString) (o : Options) (made : List Call) : Prop where
  lcount : o.lcount = 20
  numRows : o.numRows = 100000
  rows : ∃ t, Reachable (step o) (.initial o) t ∧ made <+: t.calls
  unsized : sizes args = none → made = []

/-- The SDK was started first and once. -/
def Main.Started (s : Main) (stops : Nat) : Prop :=
  ∃ rest, s.calls = .start :: rest ∧ .start ∉ rest ∧ rest.count .stop = stops

/-- The loops run with the sizes of the arguments, and all their calls took effect. -/
structure Main.Publishes (args : List JString) (s : Main) : Prop where
  sizes : sizes args = some (s.options.blockSize, s.options.bufferSize)
  reach : Reachable (step s.options) (.initial s.options) s.publish
  made : s.made = s.publish.calls

/-- The loops have not begun. -/
def Main.Early (s : Main) : Prop := s.publish.pc ≠ .stopped ∧ s.made = []

/-- What is known at a program point. -/
def MainPc.Holds (args : List JString) (s : Main) : MainPc → Prop
  | .begin => s.calls = [] ∧ s.Early
  | .uri | .uriType => s.Started 0 ∧ s.Early
  | .connecting left => s.Started 0 ∧ s.Early ∧ .start ∉ left ∧ .stop ∉ left
  | .creating left =>
    s.Started 0 ∧ s.publish.pc ≠ .stopped ∧ .start ∉ left ∧ .stop ∉ left ∧ s.Publishes args
  | .publishEnd => s.Started 0 ∧ s.publish.pc = .stopped ∧ s.Publishes args
  | .finally pending =>
    (s.Started 0 ∧ s.publish.pc ≠ .stopped ∧ (pending ≠ none ∨ s.traces ≠ [])) ∨
      (s.Started 1 ∧ s.publish.pc = .stopped ∧ s.Publishes args)
  | .exited thrown =>
    (args.length < 2 ∧ s.calls = [] ∧ thrown = none) ∨ (s.calls = [.start] ∧ thrown ≠ none) ∨
      (s.Started 1 ∧ (thrown ≠ none ∨ s.traces ≠ [])) ∨
      (s.Started 2 ∧ s.publish.pc = .stopped ∧ s.Publishes args)

structure MainInv (args : List JString) (s : Main) : Prop where
  part : FirstPart args s.options s.made
  holds : s.pc.Holds args s

theorem Main.Started.quiet {s t : Main} {stops : Nat} (started : s.Started stops) {call : SdkCall}
    (grown : t.calls = s.calls ++ [call]) (not_start : call ≠ .start) (not_stop : call ≠ .stop) :
    t.Started stops := by
  obtain ⟨rest, calls, once, count⟩ := started
  refine ⟨rest ++ [call], by rw [grown, calls, List.cons_append], ?_, ?_⟩
  · simpa [once] using Ne.symm not_start
  · simp [count, List.count_append, not_stop]

theorem Main.Started.stop {s t : Main} {stops : Nat} (started : s.Started stops)
    (grown : t.calls = s.calls ++ [.stop]) : t.Started (stops + 1) := by
  obtain ⟨rest, calls, once, count⟩ := started
  refine ⟨rest ++ [.stop], by rw [grown, calls, List.cons_append], ?_, ?_⟩
  · simpa using once
  · simp [count, List.count_append]

/-- An exception is on its way out or its trace was printed. -/
theorem throw_eq (s : Main) (e : Thrown) :
    ∃ pending traces, s.throw e = { s with pc := .finally pending, traces := traces } ∧
      (pending ≠ none ∨ traces ≠ []) := by
  unfold Main.throw
  split
  · exact ⟨none, s.traces ++ [e], rfl, .inr (by simp)⟩
  · exact ⟨some e, s.traces, rfl, .inl (by simp)⟩

variable {args : List JString} {s t : Main}

theorem mainInv_throw {e : Thrown} (part : FirstPart args s.options s.made) (started : s.Started 0)
    (unfinished : s.publish.pc ≠ .stopped) : MainInv args (s.throw e) := by
  obtain ⟨pending, traces, thrown, shown⟩ := throw_eq s e
  rw [thrown]
  exact ⟨part, .inl ⟨started, unfinished, shown⟩⟩

/-- A call before the loops. -/
theorem mainInv_issue {call : SdkCall} {thrown : Option Thrown} {next : MainPc}
    (part : FirstPart args s.options s.made) (started : s.Started 0) (unfinished : s.publish.pc ≠ .stopped)
    (not_start : call ≠ .start) (not_stop : call ≠ .stop)
    (holds : ∀ t : Main, t.Started 0 → t = { s with calls := s.calls ++ [call], pc := next } → next.Holds args t) :
    MainInv args (s.issue call thrown next) := by
  have still : ({ s with calls := s.calls ++ [call] } : Main).Started 0 := started.quiet rfl not_start not_stop
  cases thrown with
  | none => exact ⟨part, holds _ still rfl⟩
  | some e => exact mainInv_throw part still unfinished

theorem mainInv_call {thrown : Option Thrown} (inv : MainInv args s)
    (move : mainStep args s (.call thrown) = some t) : MainInv args t := by
  obtain ⟨part, holds⟩ := inv
  simp only [mainStep] at move
  split at move
  · rename_i pc
    rw [pc] at holds
    obtain ⟨calls, early⟩ := holds
    split at move
    · rename_i few
      cases move
      exact ⟨part, .inl ⟨few, calls, rfl⟩⟩
    · cases move
      refine ⟨part, ?_⟩
      cases thrown with
      | none => exact ⟨⟨[], by simp [calls], by simp, rfl⟩, early⟩
      | some e => exact .inr (.inl ⟨by simp [calls], by simp⟩)
  · rename_i pc
    rw [pc] at holds
    cases move
    refine mainInv_issue part holds.1 holds.2.1 (by decide) (by decide) fun t started same => ?_
    subst same
    exact ⟨started, holds.2⟩
  · rename_i call left pc
    rw [pc] at holds
    obtain ⟨started, early, no_start, no_stop⟩ := holds
    rw [List.mem_cons, not_or] at no_start no_stop
    cases move
    refine mainInv_issue part started early.1 (Ne.symm no_start.1) (Ne.symm no_stop.1) fun t still same => ?_
    subst same
    exact ⟨still, early, no_start.2, no_stop.2⟩
  · rename_i call left pc
    rw [pc] at holds
    obtain ⟨started, unfinished, no_start, no_stop, publishes⟩ := holds
    rw [List.mem_cons, not_or] at no_start no_stop
    cases move
    refine mainInv_issue part started unfinished (Ne.symm no_start.1) (Ne.symm no_stop.1) fun t still same => ?_
    subst same
    exact ⟨still, unfinished, no_start.2, no_stop.2, publishes.sizes, publishes.reach, publishes.made⟩
  · rename_i pc
    rw [pc] at holds
    obtain ⟨started, finished, publishes⟩ := holds
    cases move
    have stopped : ({ s with calls := s.calls ++ [.stop] } : Main).Started 1 := started.stop rfl
    cases thrown with
    | none => exact ⟨part, .inr ⟨stopped, finished, publishes.sizes, publishes.reach, publishes.made⟩⟩
    | some e =>
      obtain ⟨pending, traces, thrown, -⟩ := throw_eq { s with calls := s.calls ++ [.stop] } e
      rw [Main.issue, thrown]
      exact ⟨part, .inr ⟨stopped, finished, publishes.sizes, publishes.reach, publishes.made⟩⟩
  · rename_i pending pc
    rw [pc] at holds
    cases move
    refine ⟨part, .inr (.inr ?_)⟩
    rcases holds with ⟨started, -, shown⟩ | ⟨started, finished, publishes⟩
    · refine .inl ⟨started.stop rfl, shown.imp_left fun pending => ?_⟩
      cases thrown with
      | none => exact pending
      | some e => exact Option.some_ne_none e
    · exact .inr ⟨started.stop rfl, finished, publishes.sizes, publishes.reach, publishes.made⟩
  · cases move

theorem connectCalls_quiet : .start ∉ connectCalls ∧ .stop ∉ connectCalls := by decide

theorem createCalls_quiet (o : Options) : .start ∉ o.createCalls ∧ .stop ∉ o.createCalls := by
  unfold Options.createCalls
  split <;> simp

theorem firstPart_nil {args : List JString} (blockSize bufferSize : Int32) :
    FirstPart args (.ofSizes blockSize bufferSize) [] :=
  ⟨rfl, rfl, ⟨_, .start, List.nil_prefix⟩, fun _ => rfl⟩

theorem mainInv_sizes (inv : MainInv args s) (move : mainStep args s .sizes = some t) : MainInv args t := by
  obtain ⟨part, holds⟩ := inv
  simp only [mainStep] at move
  split at move
  · rename_i pc
    rw [pc] at holds
    obtain ⟨started, ⟨unfinished, nothing⟩, -⟩ := holds
    split at move
    · rename_i blockSize bufferSize read
      cases move
      obtain ⟨no_start, no_stop⟩ := createCalls_quiet (.ofSizes blockSize bufferSize)
      refine ⟨nothing ▸ firstPart_nil blockSize bufferSize, started, ?_, no_start, no_stop, read, .start, nothing⟩
      exact fun stopped => nomatch stopped
    · cases move
      exact mainInv_throw part started unfinished
  · cases move

theorem mainInv_uriType {project : Bool} (inv : MainInv args s)
    (move : mainStep args s (.uriType project) = some t) : MainInv args t := by
  obtain ⟨part, holds⟩ := inv
  simp only [mainStep] at move
  split at move
  · rename_i pc
    rw [pc] at holds
    cases move
    split
    · exact ⟨part, holds.1, holds.2, connectCalls_quiet⟩
    · exact mainInv_throw part holds.1 holds.2.1
  · cases move

theorem mainInv_publish {act : Act} (inv : MainInv args s) (move : mainStep args s (.publish act) = some t) :
    MainInv args t := by
  obtain ⟨part, holds⟩ := inv
  simp only [mainStep] at move
  split at move
  · rename_i pc
    rw [pc] at holds
    obtain ⟨started, -, no_start, no_stop, publishes⟩ := holds
    obtain ⟨publish, moved, rfl⟩ := Option.map_eq_some_iff.mp move
    have reach := publishes.reach.next act moved
    have more : FirstPart args s.options publish.calls :=
      { part with
        rows := ⟨publish, reach, List.prefix_refl _⟩
        unsized := fun none => by rw [publishes.sizes] at none; cases none }
    split
    · rename_i stopped
      exact ⟨more, started, stopped, publishes.sizes, reach, rfl⟩
    · rename_i aborted
      exact mainInv_throw more started (by simp [aborted])
    · rename_i running _
      refine ⟨more, ?_⟩
      show MainPc.Holds args _ s.pc
      rw [pc]
      exact ⟨started, running, no_start, no_stop, publishes.sizes, reach, rfl⟩
  · cases move

theorem mainInv_publishThrows {act : Act} {made : Nat} {e : Thrown} (inv : MainInv args s)
    (move : mainStep args s (.publishThrows act made e) = some t) : MainInv args t := by
  obtain ⟨part, holds⟩ := inv
  simp only [mainStep] at move
  split at move
  · rename_i pc
    rw [pc] at holds
    obtain ⟨started, unfinished, -, -, publishes⟩ := holds
    obtain ⟨publish, moved, thrown⟩ := Option.bind_eq_some_iff.mp move
    have reach := publishes.reach.next act moved
    split at thrown
    · cases thrown
      refine mainInv_throw ?_ started unfinished
      exact { part with
        rows := ⟨publish, reach, List.take_prefix _ _⟩
        unsized := fun none => by rw [publishes.sizes] at none; cases none }
    · cases thrown
  · cases move

theorem mainInv_initial : MainInv args .initial := by
  refine ⟨firstPart_nil 5 0, ?_⟩
  show MainPc.Holds args .initial .begin
  exact ⟨rfl, ⟨by decide, rfl⟩⟩

theorem reachable_mainInv (reach : Reachable (mainStep args) .initial s) : MainInv args s := by
  refine reach.invariant (MainInv args) mainInv_initial ?_
  intro s act t inv move
  cases act with
  | call thrown => exact mainInv_call inv move
  | uriType project => exact mainInv_uriType inv move
  | sizes => exact mainInv_sizes inv move
  | publish act => exact mainInv_publish inv move
  | publishThrows act made e => exact mainInv_publishThrows inv move

/-- Whatever the arguments are and wherever an SDK call throws: a first part of the
numbered rows is sent or queued, and nothing if a size is no int. The program ends without
a start of the SDK only for want of arguments, or because this start throws.
Otherwise the SDK is stopped: once, if an exception was shown or escapes, and
twice at the end of `publish`, where all rows are queued if there is a buffer and,
with a buffer size of 0, all are sent but those of the last open block. -/
theorem main_ends (reach : Reachable (mainStep args) .initial s) :
    s.server <+: numberedRows (20 * 100000) ∧ (sizes args = none → s.server = []) ∧
      ∀ thrown, s.pc = .exited thrown →
        (args.length < 2 ∧ s.calls = [] ∧ thrown = none) ∨ (s.calls = [.start] ∧ thrown ≠ none) ∨
          (s.Started 1 ∧ (thrown ≠ none ∨ s.traces ≠ [])) ∨
          (s.Started 2 ∧ sizes args = some (s.options.blockSize, s.options.bufferSize) ∧
            (0 ≤ s.options.bufferSize → s.server = numberedRows (20 * 100000 - s.options.leftover))) := by
  obtain ⟨⟨lcount, numRows, ⟨loops, ran, cut⟩, unsized⟩, holds⟩ := reachable_mainInv reach
  refine ⟨?_, ?_, ?_⟩
  · have all := handed_prefix ran
    rw [lcount, numRows] at all
    exact (handed_prefix_delivered s.options.buffered cut).trans all
  · intro none
    rw [Main.server, unsized none]
    rfl
  · intro thrown exited
    rw [exited] at holds
    rcases holds with usage | failed | shown | ⟨started, stopped, publishes⟩
    · exact .inl usage
    · exact .inr (.inl failed)
    · exact .inr (.inr (.inl shown))
    · refine .inr (.inr (.inr ⟨started, publishes.sizes, fun notNegative => ?_⟩))
      have sent := handed_of_stopped notNegative publishes.reach stopped (by omega) (by omega)
      rw [lcount, numRows] at sent
      rw [Main.server, publishes.made]
      exact sent

def badSizeArgs : List JString := ["esp://host:19011/dbag/rtt", "MarketData", "5x"].map literal

def badSizeRun : List MainAct :=
  [.call none, .call none, .uriType true] ++ List.replicate 3 (.call none) ++ [.sizes, .call none]

/-- A block size that is no int: the SDK is started and stopped, and nothing is sent. -/
theorem main_ends_bad_size :
    ∃ s, exec (mainStep badSizeArgs) .initial badSizeRun = some s ∧
      s.pc = .exited (some .numberFormatException) ∧ s.server = [] := by
  have ran : (exec (mainStep badSizeArgs) .initial badSizeRun).map Main.pc =
      some (.exited (some .numberFormatException)) := by decide +kernel
  obtain ⟨s, run, pc⟩ := Option.map_eq_some_iff.mp ran
  exact ⟨s, run, pc, (main_ends (.of_exec badSizeRun .start run)).2.1 (by decide +kernel)⟩

end StreamingPoc.Esp.DbagPublisher
