import StreamingPoc.Esp.LoadTimestamps
import StreamingPoc.Java.Int32
import StreamingPoc.Lib.Groups

/-!
# listen

The subscriber thread of dbag_publisher.cpp (280-389): the calls before the loop,
the event loop and the calls after it, as steps between the points at which the
SDK answers. An answer that the code tests can be a failure, and then the program
exits. `Resources` is what the calls have obtained and not freed; the project, the
stream and the subscriber are the SDK's and end with it.

`printf("dur %ld "+duration)` adds the duration to the address of the format. A run
ends in `undefined` in the first pass that the language does not define; nothing is
said of what a program does after it.
-/
namespace StreamingPoc.Esp.ListenLoop

open StreamingPoc.Lib StreamingPoc.Esp.LoadData

inductive SubCall where
  | errorCreate
  | sdkStart
  | uriCreate
  | credentialsCreate
  | setUser
  | setPassword
  | projectGet
  | credentialsFree
  | uriFree
  | projectConnect
  | createSubscriber
  | getStream
  | subscriberConnect
  | subscribe
  | getNextEvent
  | getType
  | getReader
  | nextRow
  | getLong
  | eventFree
  | sdkStop
  | errorFree
  deriving DecidableEq, Repr

/-- The calls before the loop, and whether what they return is tested. -/
def prologue : List (SubCall × Bool) :=
  [(.errorCreate, false), (.sdkStart, true), (.uriCreate, true), (.credentialsCreate, true), (.setUser, false),
    (.setPassword, false), (.projectGet, true), (.credentialsFree, false), (.uriFree, false),
    (.projectConnect, true), (.createSubscriber, true), (.getStream, true), (.subscriberConnect, true),
    (.subscribe, true)]

/-- The cases of the switch. -/
inductive EventType where
  | syncStart
  | syncEnd
  | data
  | closed
  | disconnected
  | streamExit
  | unhandled (eventType : UInt32)
  deriving DecidableEq, Repr

/-- The events that set `done`. -/
def EventType.ends : EventType → Bool
  | .closed | .disconnected | .streamExit => true
  | _ => false

inductive Pc where
  | setup (next : Nat)
  | whileTest (done : Bool)
  | getReader
  | nextRow
  | free (done : Bool)
  | returned
  | errorExit
  | undefined (row : Row) (timestamp : TimeSpec)
  deriving DecidableEq, Repr

/-- What `printf("dur %ld "+duration)` gets as the format: the literal from
`duration` on, where this is a place in it or its end. -/
def formatFrom (duration : Int64) : Option (List Char) :=
  if 0 ≤ duration ∧ duration ≤ 8 then some ("dur %ld ".toList.drop duration.toInt.toNat) else none

/-- No argument is passed, so the format must not ask for one. -/
def printfDefined (duration : Int64) : Bool :=
  match formatFrom duration with
  | some format => !format.contains '%'
  | none => false

/-- Whether the language defines a pass: the difference and the counter do not
overflow, and `printf`, if it is called, gets a format for no arguments. -/
def passDefined (s : Listen) (row : Row) (timestamp : TimeSpec) : Bool :=
  match row.key with
  | some ts =>
    timestamp.tvNsec.toInt - ts.toInt < 2 ^ 63 && s.count ≠ Int32.maxValue &&
      (s.count % 100000 ≠ 0 || printfDefined (timestamp.tvNsec - ts))
  | none => true

/-- `types` are the events whose type was read, and `read` the rows of the passes that
are over, with the clock readings; no step looks at them. -/
structure State where
  pc : Pc
  listen : Listen
  calls : List SubCall
  types : List EventType
  read : List (Row × TimeSpec)
  deriving DecidableEq, Repr

def State.issue (s : State) (calls : List SubCall) (pc : Pc) : State := { s with calls := s.calls ++ calls, pc }

/-- What the SDK answers: to the next call before the loop; an event of which the
type is known or not, or none; a reader; a row; no row, for the end or an error;
and to the stop of the SDK. -/
inductive Act where
  | call (ok : Bool)
  | noEvent
  | noType
  | event (type : EventType)
  | reader (ok : Bool)
  | row (row : Row) (timestamp : TimeSpec)
  | noRow (ok : Bool)
  | free
  | stop (ok : Bool)
  deriving DecidableEq, Repr

def step (s : State) : Act → Option State
  | .call ok =>
    match s.pc with
    | .setup next =>
      match prologue[next]? with
      | some (call, tested) =>
        some (s.issue [call] (
          if tested ∧ ¬ ok then .errorExit
          else if next + 1 < prologue.length then .setup (next + 1)
          else .whileTest false))
      | none => none
    | _ => none
  | .noEvent =>
    match s.pc with
    | .whileTest false => some (s.issue [.getNextEvent] .errorExit)
    | _ => none
  | .noType =>
    match s.pc with
    | .whileTest false => some (s.issue [.getNextEvent, .getType, .eventFree] .errorExit)
    | _ => none
  | .event type =>
    match s.pc with
    | .whileTest false =>
      some { s.issue [.getNextEvent, .getType] (if type = .data then .getReader else .free type.ends) with
        types := s.types ++ [type] }
    | _ => none
  | .reader ok =>
    match s.pc with
    | .getReader => some (s.issue [.getReader] (if ok then .nextRow else .errorExit))
    | _ => none
  | .row row timestamp =>
    match s.pc with
    | .nextRow =>
      match s.listen.nextRow row timestamp with
      | some listen =>
        if passDefined s.listen row timestamp then
          some { s.issue [.nextRow, .getLong] .nextRow with listen, read := s.read ++ [(row, timestamp)] }
        else some (s.issue [.nextRow, .getLong] (.undefined row timestamp))
      | none => some (s.issue [.nextRow, .getLong] .errorExit)
    | _ => none
  | .noRow ok =>
    match s.pc with
    | .nextRow => some (s.issue [.nextRow] (if ok then .free false else .errorExit))
    | _ => none
  | .free =>
    match s.pc with
    | .free done => some (s.issue [.eventFree] (.whileTest done))
    | _ => none
  | .stop ok =>
    match s.pc with
    | .whileTest true =>
      some (if ok then s.issue [.sdkStop, .errorFree] .returned else s.issue [.sdkStop] .errorExit)
    | _ => none

def State.initial : State := { pc := .setup 0, listen := .initial, calls := [], types := [], read := [] }

/-! ## What a step does -/

/-- The steps with their guards. -/
inductive StepFrom (s : State) : Act → State → Prop
  | call (next : Nat) (call : SubCall) (tested ok : Bool) (pc : s.pc = .setup next)
      (here : prologue[next]? = some (call, tested)) :
      StepFrom s (.call ok) (s.issue [call] (
        if tested ∧ ¬ ok then .errorExit
        else if next + 1 < prologue.length then .setup (next + 1)
        else .whileTest false))
  | noEvent (pc : s.pc = .whileTest false) : StepFrom s .noEvent (s.issue [.getNextEvent] .errorExit)
  | noType (pc : s.pc = .whileTest false) :
      StepFrom s .noType (s.issue [.getNextEvent, .getType, .eventFree] .errorExit)
  | event (type : EventType) (pc : s.pc = .whileTest false) :
      StepFrom s (.event type)
        { s.issue [.getNextEvent, .getType] (if type = .data then .getReader else .free type.ends) with
          types := s.types ++ [type] }
  | reader (ok : Bool) (pc : s.pc = .getReader) :
      StepFrom s (.reader ok) (s.issue [.getReader] (if ok then .nextRow else .errorExit))
  | row (row : Row) (timestamp : TimeSpec) (listen : Listen) (pc : s.pc = .nextRow)
      (heard : s.listen.nextRow row timestamp = some listen)
      (isDefined : passDefined s.listen row timestamp) :
      StepFrom s (.row row timestamp)
        { s.issue [.nextRow, .getLong] .nextRow with listen, read := s.read ++ [(row, timestamp)] }
  | undefined (row : Row) (timestamp : TimeSpec) (listen : Listen) (pc : s.pc = .nextRow)
      (heard : s.listen.nextRow row timestamp = some listen)
      (notDefined : ¬ passDefined s.listen row timestamp) :
      StepFrom s (.row row timestamp) (s.issue [.nextRow, .getLong] (.undefined row timestamp))
  | noKey (row : Row) (timestamp : TimeSpec) (pc : s.pc = .nextRow)
      (failed : s.listen.nextRow row timestamp = none) :
      StepFrom s (.row row timestamp) (s.issue [.nextRow, .getLong] .errorExit)
  | noRow (ok : Bool) (pc : s.pc = .nextRow) :
      StepFrom s (.noRow ok) (s.issue [.nextRow] (if ok then .free false else .errorExit))
  | free (done : Bool) (pc : s.pc = .free done) : StepFrom s .free (s.issue [.eventFree] (.whileTest done))
  | stop (pc : s.pc = .whileTest true) : StepFrom s (.stop true) (s.issue [.sdkStop, .errorFree] .returned)
  | notStopped (pc : s.pc = .whileTest true) : StepFrom s (.stop false) (s.issue [.sdkStop] .errorExit)

theorem step_from {s t : State} {act : Act} (move : step s act = some t) : StepFrom s act t := by
  cases act with
  | call ok =>
    simp only [step] at move
    split at move
    · rename_i next pc
      split at move
      · rename_i call tested here
        cases move
        exact .call next call tested ok pc here
      · cases move
    · cases move
  | noEvent =>
    simp only [step] at move
    split at move
    · rename_i pc
      cases move
      exact .noEvent pc
    · cases move
  | noType =>
    simp only [step] at move
    split at move
    · rename_i pc
      cases move
      exact .noType pc
    · cases move
  | event type =>
    simp only [step] at move
    split at move
    · rename_i pc
      cases move
      exact .event type pc
    · cases move
  | reader ok =>
    simp only [step] at move
    split at move
    · rename_i pc
      cases move
      exact .reader ok pc
    · cases move
  | row row timestamp =>
    simp only [step] at move
    split at move
    · rename_i pc
      split at move
      · rename_i listen heard
        split at move
        · rename_i isDefined
          cases move
          exact .row row timestamp listen pc heard isDefined
        · rename_i notDefined
          cases move
          exact .undefined row timestamp listen pc heard notDefined
      · rename_i failed
        cases move
        exact .noKey row timestamp pc failed
    · cases move
  | noRow ok =>
    simp only [step] at move
    split at move
    · rename_i pc
      cases move
      exact .noRow ok pc
    · cases move
  | free =>
    simp only [step] at move
    split at move
    · rename_i done pc
      cases move
      exact .free done pc
    · cases move
  | stop ok =>
    simp only [step] at move
    split at move
    · rename_i pc
      cases move
      cases ok with
      | true => exact .stop pc
      | false => exact .notStopped pc
    · cases move

/-! ## Resources -/

structure Resources where
  error : Bool
  sdk : Bool
  uri : Bool
  credentials : Bool
  event : Bool
  reader : Bool
  deriving DecidableEq, Repr

def Resources.none : Resources :=
  { error := false, sdk := false, uri := false, credentials := false, event := false, reader := false }

def Resources.call (r : Resources) : SubCall → Resources
  | .errorCreate => { r with error := true }
  | .sdkStart => { r with sdk := true }
  | .uriCreate => { r with uri := true }
  | .credentialsCreate => { r with credentials := true }
  | .credentialsFree => { r with credentials := false }
  | .uriFree => { r with uri := false }
  | .getNextEvent => { r with event := true }
  | .getReader => { r with reader := true }
  | .eventFree => { r with event := false, reader := false }
  | .sdkStop => { r with sdk := false }
  | .errorFree => { r with error := false }
  | _ => r

/-- What a call may count on: nothing is used before it is there or after it was
freed, and nothing is obtained that would be lost. -/
def Resources.allows (r : Resources) : SubCall → Bool
  | .errorCreate => !r.error
  | .sdkStart => r.error && !r.sdk
  | .uriCreate => r.sdk && !r.uri
  | .credentialsCreate => r.sdk && !r.credentials
  | .setUser | .setPassword | .credentialsFree => r.sdk && r.credentials
  | .projectGet => r.sdk && r.uri && r.credentials
  | .uriFree => r.sdk && r.uri
  | .projectConnect | .createSubscriber | .getStream | .subscriberConnect | .subscribe =>
    r.sdk && !r.uri && !r.credentials
  | .getNextEvent => r.sdk && !r.event
  | .getType => r.event
  | .getReader => r.event && !r.reader
  | .nextRow | .getLong => r.event && r.reader
  | .eventFree => r.event
  | .sdkStop => r.sdk && !r.event
  | .errorFree => r.error && !r.sdk

def Disciplined (calls : List SubCall) : Prop :=
  Guarded Resources.call (fun r call => r.allows call) .none calls

def State.resources (s : State) : Resources := s.calls.foldl Resources.call .none

/-- Between the events. -/
def connected : Resources :=
  { error := true, sdk := true, uri := false, credentials := false, event := false, reader := false }

/-- What is held at a program point. -/
def Pc.Holds (r : Resources) (calls : List SubCall) : Pc → Prop
  | .setup next => next < prologue.length ∧ calls = (prologue.map Prod.fst).take next
  | .whileTest _ => r = connected
  | .getReader => r = { connected with event := true }
  | .nextRow | .undefined _ _ => r = { connected with event := true, reader := true }
  | .free _ => r = { connected with event := true } ∨ r = { connected with event := true, reader := true }
  | .returned => r = .none
  | .errorExit => True

structure ResourceInv (s : State) : Prop where
  disciplined : Disciplined s.calls
  holds : s.pc.Holds s.resources s.calls

theorem disciplined_prologue : Disciplined (prologue.map Prod.fst) := by
  simp [Disciplined, Guarded, prologue, Resources.call, Resources.allows, Resources.none]

theorem connected_prologue : (prologue.map Prod.fst).foldl Resources.call .none = connected := rfl

/-- Calls that are allowed where the program point has the resources `r`. -/
theorem ResourceInv.issue {s t : State} (inv : ResourceInv s) {calls : List SubCall} (grown : t.calls = s.calls ++ calls)
    (guarded : Guarded Resources.call (fun r call => r.allows call) s.resources calls)
    (holds : t.pc.Holds (calls.foldl Resources.call s.resources) t.calls) : ResourceInv t := by
  have resources : t.resources = calls.foldl Resources.call s.resources := by
    rw [State.resources, grown, List.foldl_append]
    rfl
  constructor
  · rw [grown]
    exact (guarded_append _ _ _ _ _).mpr ⟨inv.disciplined, guarded⟩
  · rw [resources]
    exact holds

/-- The calls before the loop, one by one. -/
theorem resourceInv_call {s : State} {next : Nat} {call : SubCall} {tested ok : Bool} (inv : ResourceInv s)
    (pc : s.pc = .setup next) (here : prologue[next]? = some (call, tested)) :
    ResourceInv (s.issue [call] (
      if tested ∧ ¬ ok then .errorExit
      else if next + 1 < prologue.length then .setup (next + 1)
      else .whileTest false)) := by
  have holds := inv.holds
  rw [pc] at holds
  obtain ⟨below, calls⟩ := holds
  have at_next : (prologue.map Prod.fst)[next]? = some call := by
    rw [List.getElem?_map, here]
    rfl
  have grown : s.calls ++ [call] = (prologue.map Prod.fst).take (next + 1) := by
    rw [List.take_add_one, at_next, calls]
    rfl
  have disciplined : Disciplined (s.calls ++ [call]) := by
    have whole := disciplined_prologue
    rw [← List.take_append_drop (next + 1) (prologue.map Prod.fst)] at whole
    rw [grown]
    exact ((guarded_append _ _ _ _ _).mp whole).1
  refine ⟨disciplined, ?_⟩
  simp only [State.issue]
  split
  · trivial
  · split
    · rename_i more
      exact ⟨more, grown⟩
    · rename_i last
      show (s.calls ++ [call]).foldl Resources.call .none = connected
      rw [grown, List.take_of_length_le (by rw [List.length_map]; omega), connected_prologue]

theorem resourceInv_step {s t : State} {act : Act} (inv : ResourceInv s) (move : step s act = some t) :
    ResourceInv t := by
  have holds := inv.holds
  cases step_from move with
  | call next call tested ok pc here => exact resourceInv_call inv pc here
  | noEvent pc =>
    rw [pc, Pc.Holds] at holds
    exact inv.issue rfl (by simp [Guarded, holds, connected, Resources.allows]) trivial
  | noType pc =>
    rw [pc, Pc.Holds] at holds
    exact inv.issue rfl (by simp [Guarded, holds, connected, Resources.allows, Resources.call]) trivial
  | event type pc =>
    rw [pc, Pc.Holds] at holds
    refine inv.issue rfl (by simp [Guarded, holds, connected, Resources.allows, Resources.call]) ?_
    rw [holds]
    simp only [State.issue]
    split
    · rfl
    · exact .inl rfl
  | reader ok pc =>
    rw [pc, Pc.Holds] at holds
    refine inv.issue rfl (by simp [Guarded, holds, connected, Resources.allows]) ?_
    rw [holds]
    cases ok with
    | true => rfl
    | false => trivial
  | row row timestamp listen pc heard isDefined =>
    rw [pc, Pc.Holds] at holds
    refine inv.issue rfl (by simp [Guarded, holds, connected, Resources.allows, Resources.call]) ?_
    rw [holds]
    rfl
  | undefined row timestamp listen pc heard notDefined =>
    rw [pc, Pc.Holds] at holds
    refine inv.issue rfl (by simp [Guarded, holds, connected, Resources.allows, Resources.call]) ?_
    rw [holds]
    rfl
  | noKey row timestamp pc failed =>
    rw [pc, Pc.Holds] at holds
    exact inv.issue rfl (by simp [Guarded, holds, connected, Resources.allows, Resources.call]) trivial
  | noRow ok pc =>
    rw [pc, Pc.Holds] at holds
    refine inv.issue rfl (by simp [Guarded, holds, connected, Resources.allows]) ?_
    rw [holds]
    cases ok with
    | true => exact .inr rfl
    | false => trivial
  | free done pc =>
    rw [pc, Pc.Holds] at holds
    rcases holds with holds | holds
    · refine inv.issue rfl (by simp [Guarded, holds, connected, Resources.allows]) ?_
      rw [holds]
      rfl
    · refine inv.issue rfl (by simp [Guarded, holds, connected, Resources.allows]) ?_
      rw [holds]
      rfl
  | stop pc =>
    rw [pc, Pc.Holds] at holds
    refine inv.issue rfl (by simp [Guarded, holds, connected, Resources.allows, Resources.call]) ?_
    rw [holds]
    rfl
  | notStopped pc =>
    rw [pc, Pc.Holds] at holds
    exact inv.issue rfl (by simp [Guarded, holds, connected, Resources.allows]) trivial

theorem resourceInv_initial : ResourceInv .initial := ⟨trivial, by decide, rfl⟩

/-- In a disciplined trace an event is freed once, unless it is the one held. -/
theorem events_balanced {calls : List SubCall} (disciplined : Disciplined calls) :
    calls.count .getNextEvent =
      calls.count .eventFree + (calls.foldl Resources.call .none).event.toNat := by
  induction calls using List.reverseRecOn with
  | nil => rfl
  | append_singleton calls c ih =>
    obtain ⟨before, allowed, -⟩ := (guarded_append _ _ _ _ _).mp disciplined
    have balanced := ih before
    rw [List.count_append, List.count_append, List.foldl_append, balanced]
    generalize calls.foldl Resources.call .none = r at allowed ⊢
    cases c with
    | getNextEvent =>
      have free : r.event = false := by
        simp only [Resources.allows, Bool.and_eq_true, Bool.not_eq_true'] at allowed
        exact allowed.2
      simp [Resources.call, free]
    | eventFree =>
      have held : r.event = true := allowed
      simp [Resources.call, held]
    | _ => simp [Resources.call]

/-! ## Events and rows -/

/-- What was heard at a program point: the loop goes on with an event that does not
end it, and the pass over an `undefined` row is not defined. -/
def Pc.Heard (listen : Listen) (types : List EventType) : Pc → Prop
  | .whileTest true | .free true | .returned =>
    ∃ pre last, types = pre ++ [last] ∧ last.ends = true ∧ ∀ type ∈ pre, type.ends = false
  | .errorExit => True
  | .undefined row timestamp => row.key.isSome ∧ ¬ passDefined listen row timestamp
  | _ => ∀ type ∈ types, type.ends = false

structure HeardInv (s : State) : Prop where
  heard : s.pc.Heard s.listen s.types
  durations : s.read.map (fun received => received.1.key.map fun ts => received.2.tvNsec.toInt - ts.toInt) =
    s.listen.durations.map fun duration => some duration.toInt
  count : s.listen.count = Int32.ofNat s.listen.durations.length
  small : s.listen.durations.length < 2 ^ 31
  printed : Firsts 100000 s.listen.durations s.listen.printed
  formats : ∀ duration ∈ s.listen.printed, printfDefined duration

/-- A step that ends no pass over a row. -/
theorem HeardInv.frame {s t : State} (inv : HeardInv s) (listen : t.listen = s.listen) (read : t.read = s.read)
    (heard : t.pc.Heard s.listen t.types) : HeardInv t := by
  refine ⟨listen ▸ heard, ?_, ?_, ?_, ?_, ?_⟩
  · rw [read, listen]
    exact inv.durations
  · rw [listen]
    exact inv.count
  · rw [listen]
    exact inv.small
  · rw [listen]
    exact inv.printed
  · rw [listen]
    exact inv.formats

theorem count_border {n : Nat} (small : n < 2 ^ 31) : Int32.ofNat n % 100000 = 0 ↔ n % 100000 = 0 := by
  have value : (Int32.ofNat n).toInt = n := Int32.toInt_ofNat_of_lt small
  have limit : (100000 : Int32).toInt = 100000 := by decide
  rw [Java.Int32.mod_eq_zero_iff, value, limit]
  omega

theorem count_greatest {n : Nat} (small : n < 2 ^ 31) : Int32.ofNat n = Int32.maxValue ↔ n = 2 ^ 31 - 1 := by
  have value : (Int32.ofNat n).toInt = n := Int32.toInt_ofNat_of_lt small
  rw [← Int32.toInt_inj, value, Int32.toInt_maxValue]
  omega

/-- What is left of the literal is `"ld "`, `"d "`, `" "` or empty. -/
theorem printfDefined_iff (duration : Int64) :
    printfDefined duration ↔ 5 ≤ duration.toInt ∧ duration.toInt ≤ 8 := by
  have zero : (0 : Int64).toInt = 0 := rfl
  have eight : (8 : Int64).toInt = 8 := rfl
  have rests : ∀ n < 9, (!("dur %ld ".toList.drop n).contains '%') = true ↔ 5 ≤ n := by decide
  simp only [printfDefined, formatFrom, Int64.le_iff_toInt_le, zero, eight]
  by_cases inside : 0 ≤ duration.toInt ∧ duration.toInt ≤ 8
  · rw [if_pos inside]
    refine (rests duration.toInt.toNat (by omega)).trans ?_
    omega
  · rw [if_neg inside]
    simp
    omega

/-- What it takes for a pass to be defined, by values. -/
theorem passDefined_iff {s : Listen} {n : Nat} (count : s.count = Int32.ofNat n) (small : n < 2 ^ 31) {row : Row}
    {ts : Int64} (key : row.key = some ts) (timestamp : TimeSpec) :
    passDefined s row timestamp ↔
      timestamp.tvNsec.toInt - ts.toInt < 2 ^ 63 ∧ n ≠ 2 ^ 31 - 1 ∧
        (n % 100000 = 0 → printfDefined (timestamp.tvNsec - ts)) := by
  simp only [passDefined, key, count, Bool.and_eq_true, Bool.or_eq_true, decide_eq_true_eq, ne_eq, count_greatest small,
    count_border small, and_assoc]
  tauto

/-- Without an overflow the duration is the difference. -/
theorem toInt_duration {timestamp : TimeSpec} {ts : Int64} (fits : timestamp.tvNsec.toInt - ts.toInt < 2 ^ 63) :
    (timestamp.tvNsec - ts).toInt = timestamp.tvNsec.toInt - ts.toInt := by
  have nonneg := timestamp.nonneg
  have below := ts.toInt_lt
  rw [Int64.toInt_sub]
  exact Int.bmod_eq_of_le (by omega) (by omega)

/-- What a pass adds, with the counter at row `n`. -/
theorem nextRow_spec {s listen : Listen} {n : Nat} (count : s.count = Int32.ofNat n) (small : n < 2 ^ 31) {row : Row}
    {timestamp : TimeSpec} (heard : s.nextRow row timestamp = some listen) :
    ∃ ts, row.key = some ts ∧ listen.count = Int32.ofNat (n + 1) ∧
      listen.durations = s.durations ++ [timestamp.tvNsec - ts] ∧
      listen.printed = s.printed ++ if n % 100000 = 0 then [timestamp.tvNsec - ts] else [] := by
  obtain ⟨ts, key, computed⟩ := Option.bind_eq_some_iff.mp heard
  cases computed
  refine ⟨ts, key, by simp [count], rfl, ?_⟩
  simp only [count, count_border small]
  split
  · rfl
  · rw [List.append_nil]

theorem heardInv_row {s : State} (inv : HeardInv s) (reading : s.pc = .nextRow) {row : Row} {timestamp : TimeSpec}
    {listen : Listen} (heard : s.listen.nextRow row timestamp = some listen)
    (isDefined : passDefined s.listen row timestamp) :
    HeardInv { s.issue [.nextRow, .getLong] .nextRow with listen, read := s.read ++ [(row, timestamp)] } := by
  obtain ⟨ts, key, count, durations, printed⟩ := nextRow_spec inv.count inv.small heard
  obtain ⟨fits, notGreatest, format⟩ := (passDefined_iff inv.count inv.small key timestamp).mp isDefined
  have before := inv.heard
  have small := inv.small
  have length : listen.durations.length = s.listen.durations.length + 1 := by
    rw [durations, List.length_append, List.length_singleton]
  rw [reading] at before
  refine ⟨before, ?_, ?_, ?_, ?_, ?_⟩
  · simp [inv.durations, key, durations, toInt_duration fits]
  · rw [length]
    exact count
  · rw [length]
    omega
  · show Firsts 100000 listen.durations listen.printed
    rw [durations, printed]
    exact inv.printed.append_singleton (by decide) (timestamp.tvNsec - ts)
  · intro duration member
    rw [printed] at member
    rcases List.mem_append.mp member with earlier | last
    · exact inv.formats duration earlier
    · split at last
      · rename_i border
        rw [List.mem_singleton.mp last]
        exact format border
      · cases last

theorem heardInv_step {s t : State} {act : Act} (inv : HeardInv s) (move : step s act = some t) : HeardInv t := by
  have heard := inv.heard
  cases step_from move with
  | call next call tested ok pc here =>
    rw [pc] at heard
    refine inv.frame rfl rfl ?_
    simp only [State.issue]
    split
    · trivial
    · split <;> exact heard
  | event type pc =>
    rw [pc] at heard
    refine inv.frame rfl rfl ?_
    simp only [State.issue]
    have still : type.ends = false → ∀ type' ∈ s.types ++ [type], type'.ends = false := by
      intro goes_on type' member
      rcases List.mem_append.mp member with before | last
      · exact heard type' before
      · rw [List.mem_singleton.mp last]
        exact goes_on
    split
    · rename_i data
      exact still (by rw [data]; rfl)
    · cases ends : type.ends with
      | true => exact ⟨s.types, type, rfl, ends, heard⟩
      | false => exact still ends
  | row row timestamp listen pc computed isDefined => exact heardInv_row inv pc computed isDefined
  | undefined row timestamp listen pc computed notDefined =>
    obtain ⟨ts, key, -⟩ := Option.bind_eq_some_iff.mp computed
    exact inv.frame rfl rfl ⟨by rw [key]; rfl, notDefined⟩
  | free done pc =>
    rw [pc] at heard
    refine inv.frame rfl rfl ?_
    cases done <;> exact heard
  | stop pc =>
    rw [pc] at heard
    exact inv.frame rfl rfl heard
  | reader ok pc =>
    rw [pc] at heard
    refine inv.frame rfl rfl ?_
    cases ok with
    | true => exact heard
    | false => trivial
  | noRow ok pc =>
    rw [pc] at heard
    refine inv.frame rfl rfl ?_
    cases ok with
    | true => exact heard
    | false => trivial
  | _ => exact inv.frame rfl rfl trivial

theorem heardInv_initial : HeardInv .initial := by
  refine ⟨?_, rfl, rfl, by decide, ?_, ?_⟩
  · intro type member
    cases member
  · intro k
    simp [State.initial, Listen.initial]
  · intro duration member
    cases member

theorem reachable_heardInv {s : State} (reach : Reachable step .initial s) : HeardInv s :=
  reach.invariant HeardInv heardInv_initial fun _ _ _ inv move => heardInv_step inv move

/-- Whatever events and rows the server sends and whichever answer is a failure, as
long as the passes are defined: `listen` uses nothing before it is there or after it
was freed, frees each event once, before it asks for the next, and the URI and the
credentials before it connects. It returns after the first event that is CLOSED,
DISCONNECTED or STREAM_EXIT, and after no other, and holds nothing then. A run that
ends in a pass which is not defined ends with the event and its reader held. -/
theorem listen_disciplined {s : State} (reach : Reachable step .initial s) :
    Disciplined s.calls ∧
      s.calls.count .getNextEvent = s.calls.count .eventFree + s.resources.event.toNat ∧
      (s.pc = .returned → s.resources = .none ∧
        ∃ pre last, s.types = pre ++ [last] ∧ last.ends = true ∧ ∀ type ∈ pre, type.ends = false) ∧
      (∀ row timestamp, s.pc = .undefined row timestamp →
        s.resources = { connected with event := true, reader := true } ∧ ∀ act, step s act = none) := by
  have resources : ResourceInv s :=
    reach.invariant ResourceInv resourceInv_initial fun _ _ _ inv move => resourceInv_step inv move
  have heard := (reachable_heardInv reach).heard
  have holds := resources.holds
  refine ⟨resources.disciplined, events_balanced resources.disciplined, ?_, ?_⟩
  · intro returned
    rw [returned] at holds heard
    exact ⟨holds, heard⟩
  · intro row timestamp undefined
    rw [undefined] at holds
    refine ⟨holds, fun act => ?_⟩
    cases act <;> simp [step, undefined]

/-- However the rows are spread over events: the durations are the differences of the
readings and the keys, of all rows in turn, and `printf` is called for row 0, 100000,
200000 and so on. It gets a format for no arguments each time, which it does for
durations from 5 to 8 only; so a run ends in a pass that is not defined at the first
of these rows with another duration, unless a difference or `count` overflows before. -/
theorem listen_hears {s : State} (reach : Reachable step .initial s) :
    (s.read.map fun received => received.1.key.map fun ts => received.2.tvNsec.toInt - ts.toInt) =
        (s.listen.durations.map fun duration => some duration.toInt) ∧
      (∀ k, s.listen.printed[k]? = s.listen.durations[k * 100000]?) ∧
      (∀ duration ∈ s.listen.printed, 5 ≤ duration.toInt ∧ duration.toInt ≤ 8) ∧
      (∀ row timestamp, s.pc = .undefined row timestamp → ∃ ts, row.key = some ts ∧
        (2 ^ 63 ≤ timestamp.tvNsec.toInt - ts.toInt ∨ s.read.length = 2 ^ 31 - 1 ∨
          s.read.length % 100000 = 0 ∧
            ¬ (5 ≤ timestamp.tvNsec.toInt - ts.toInt ∧ timestamp.tvNsec.toInt - ts.toInt ≤ 8))) := by
  have inv := reachable_heardInv reach
  have length : s.read.length = s.listen.durations.length := by
    simpa using congrArg List.length inv.durations
  refine ⟨inv.durations, inv.printed, ?_, ?_⟩
  · intro duration member
    exact (printfDefined_iff duration).mp (inv.formats duration member)
  · intro row timestamp undefined
    have heard := inv.heard
    rw [undefined] at heard
    obtain ⟨keyed, notDefined⟩ := heard
    obtain ⟨ts, key⟩ := Option.isSome_iff_exists.mp keyed
    refine ⟨ts, key, ?_⟩
    rw [passDefined_iff inv.count inv.small key, printfDefined_iff, ← length] at notDefined
    by_cases fits : timestamp.tvNsec.toInt - ts.toInt < 2 ^ 63
    · rw [toInt_duration fits] at notDefined
      omega
    · exact .inl (Int.not_lt.mp fits)

/-- One row in one event, read at 515 ns, and DISCONNECTED. -/
def oneRow (sent : Int64) : List Act :=
  List.replicate 14 (.call true) ++
    [.event .data, .reader true,
      .row { operation := some .insert, columns := [.long sent] } (atNanos 0 515 (by decide) (by decide))]

def disconnect : List Act :=
  [.noRow true, .free, .event .syncEnd, .free, .event .disconnected, .free, .stop true]

/-- A row that is 5 ns old; and one that is 500 ns old. -/
theorem listen_disciplined_one_row :
    (∃ s, exec step .initial (oneRow 510 ++ disconnect) = some s ∧ s.pc = .returned ∧ s.resources = .none) ∧
      ∃ s, exec step .initial (oneRow 15) = some s ∧ s.resources.event = true := by
  constructor
  · have ran : (exec step .initial (oneRow 510 ++ disconnect)).map State.pc = some .returned := by
      decide +kernel
    obtain ⟨s, run, pc⟩ := Option.map_eq_some_iff.mp ran
    exact ⟨s, run, pc, ((listen_disciplined (.of_exec _ .start run)).2.2.1 pc).1⟩
  · have ran : (exec step .initial (oneRow 15)).map State.pc =
        some (.undefined { operation := some .insert, columns := [.long 15] }
          (atNanos 0 515 (by decide) (by decide))) := by decide +kernel
    obtain ⟨s, run, pc⟩ := Option.map_eq_some_iff.mp ran
    refine ⟨s, run, ?_⟩
    rw [((listen_disciplined (.of_exec _ .start run)).2.2.2 _ _ pc).1]

theorem listen_hears_one_row :
    ∃ s, exec step .initial (oneRow 510 ++ disconnect) = some s ∧ s.listen.printed[0]? = some 5 := by
  have ran : (exec step .initial (oneRow 510 ++ disconnect)).map (fun s => s.listen.durations) = some [5] := by
    decide +kernel
  obtain ⟨s, run, durations⟩ := Option.map_eq_some_iff.mp ran
  have printed := (listen_hears (.of_exec _ .start run)).2.1 0
  rw [durations] at printed
  exact ⟨s, run, printed⟩

end StreamingPoc.Esp.ListenLoop
