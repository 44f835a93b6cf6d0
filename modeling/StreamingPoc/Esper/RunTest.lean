import StreamingPoc.Java.Double
import StreamingPoc.Java.Text
import StreamingPoc.Latency.Receipts
import StreamingPoc.Lib.Pacing

/-!
# MDEsper.runTest

The sender of MDEsper (MDEsper.java:70-88) and the time-stamp listener, with the
Esper engine between them: it gives the events it was sent to the listener, in
order and each once, in arrays of any length and at any later time. An exception
of the listener ends its call; the engine logs it and goes on. All readings are
of one clock, real time reduced to a long.
-/
namespace StreamingPoc.Esper.MDEsper

open StreamingPoc.Java StreamingPoc.Lib StreamingPoc.Latency
open StreamingPoc.Netfeed (Histogram Sample)

structure MarketDataEvent (D : Type) where
  nanoTimeStamp : Int64
  price : D
  quantity : Int32
  symbol : JString
  deriving DecidableEq, Repr

def symbols : List JString := ["BMW", "ALV", "FDAX", "DAX"].map literal

def nanosPause : Int64 := 2 * 1000

inductive RunPc (D : Type) where
  | pause
  | take
  | create
  | send (ev : MarketDataEvent D)
  deriving DecidableEq, Repr

/-- The locals of `runTest`. -/
structure RunTest (D : Type) where
  pc : RunPc D
  startTime : Int64
  price : D
  deriving DecidableEq, Repr

/-- The test of the inner loop, the new start time and price, the event, and
`sendEvent`. `increment` is `random.nextDouble() * 2`. -/
inductive RunAct (D : Type) where
  | test
  | take (increment : D)
  | create
  | sendEvent
  deriving DecidableEq, Repr

variable {D : Type}

def RunTest.step [JDouble D] (s : RunTest D) (nanoTime : Int64) : RunAct D → Option (RunTest D)
  | .test =>
    match s.pc with
    | .pause => some (if nanoTime - s.startTime < nanosPause then s else { s with pc := .take })
    | _ => none
  | .take increment =>
    match s.pc with
    | .take => some { pc := .create, startTime := nanoTime, price := JDouble.add s.price increment }
    | _ => none
  | .create =>
    match s.pc with
    | .create =>
      some { s with
        pc := .send { nanoTimeStamp := nanoTime, price := s.price, quantity := 100, symbol := symbols.headD [] } }
    | _ => none
  | .sendEvent =>
    match s.pc with
    | .send _ => some { s with pc := .pause }
    | _ => none

/-- The event that is constructed and not sent yet. -/
def RunTest.pending (s : RunTest D) : List (MarketDataEvent D) :=
  match s.pc with
  | .send ev => [ev]
  | _ => []

/-- `sent` is what the engine was given, `taken` how much of it went to the
listener and `base` the number of the first event of the array the listener has.
No step of the code reads `releases`, which holds for each event the times of the
start of its round and of its stamp, nor `startedAt` and `receipts`. -/
structure Feed (D : Type) where
  test : RunTest D
  sent : List (MarketDataEvent D)
  taken : Nat
  base : Nat
  listener : Listener
  now : Int
  startedAt : Int
  releases : List (Int × Int)
  receipts : List Receipt

inductive FeedAct (D : Type) where
  | run (act : RunAct D)
  | update (newEvents : Option Nat)
  | newEvent
  | endOfArray

/-- The number of the event the listener takes next. -/
def Feed.next (s : Feed D) : Nat :=
  match s.listener.pc with
  | .loop i _ => s.base + i
  | .idle => s.taken

def Feed.run [JDouble D] (s : Feed D) (time : Int) (act : RunAct D) : Option (Feed D) :=
  (s.test.step (Int64.ofInt time) act).map fun test =>
    { s with
      test
      now := time
      sent := s.sent ++ if act matches .sendEvent then s.test.pending else []
      startedAt := if act matches .take _ then time else s.startedAt
      releases := s.releases ++ if act matches .create then [(s.startedAt, time)] else [] }

def feedStep [JDouble D] (s : Feed D) (timed : Int × FeedAct D) : Option (Feed D) :=
  if s.now ≤ timed.1 then
    match timed.2 with
    | .run act => s.run timed.1 act
    | .update newEvents =>
      if s.taken + newEvents.getD 0 ≤ s.sent.length then
        (step s.listener (.update newEvents)).map fun listener =>
          { s with listener, now := timed.1, base := s.taken, taken := s.taken + newEvents.getD 0 }
      else none
    | .newEvent =>
      match s.sent[s.next]? with
      | some ev =>
        (step s.listener (.newEvent { time := ev.nanoTimeStamp, nanoTime := Int64.ofInt timed.1 })).map fun listener =>
          { s with
            listener
            now := timed.1
            receipts := s.receipts ++
              [{ number := s.next, sent := (s.releases.map Prod.snd).getD s.next 0, received := timed.1 }] }
      | none => none
    | .endOfArray =>
      (step s.listener .endOfArray).map fun listener => { s with listener, now := timed.1 }
  else none

/-- `runTest` after its first reading of the clock, with the price 100. -/
def Feed.initial [JDouble D] (start : Int) : Feed D where
  test := { pc := .pause, startTime := Int64.ofInt start, price := JDouble.ofInt 100 }
  sent := []
  taken := 0
  base := 0
  listener := .initial
  now := start
  startedAt := start
  releases := []
  receipts := []

/-- The times at which the events were stamped. -/
def Feed.stampedAt (s : Feed D) : List Int := s.releases.map Prod.snd

/-! ## The sender -/

/-- What `runTest` may count on at its program point. -/
def RunPc.Ready (now startedAt : Int) (releases : List (Int × Int)) : RunPc D → Prop
  | .pause | .send _ => ∀ e ∈ releases, e.1 ≤ startedAt ∧ e.2 ≤ now
  | .take => ∀ e ∈ releases, e.1 + 2000 ≤ now ∧ e.2 ≤ now
  | .create => ∀ e ∈ releases, e.1 + 2000 ≤ startedAt ∧ e.2 ≤ startedAt

structure RunInv (s : Feed D) : Prop where
  stamps : (s.sent ++ s.test.pending).map MarketDataEvent.nanoTimeStamp = s.stampedAt.map Int64.ofInt
  marked : Marked 2000 s.releases
  startTime : s.test.startTime = Int64.ofInt s.startedAt
  started : s.startedAt ≤ s.now
  ready : s.test.pc.Ready s.now s.startedAt s.releases

theorem RunPc.Ready.later {now now' startedAt : Int} {releases : List (Int × Int)} {pc : RunPc D}
    (ready : pc.Ready now startedAt releases) (later : now ≤ now') : pc.Ready now' startedAt releases := by
  cases pc with
  | pause => exact fun e member => ⟨(ready e member).1, (ready e member).2.trans later⟩
  | take => exact fun e member => ⟨(ready e member).1.trans later, (ready e member).2.trans later⟩
  | create => exact ready
  | send ev => exact fun e member => ⟨(ready e member).1, (ready e member).2.trans later⟩

/-- What is seen to be over is over, also when the reading wraps. -/
theorem pause_over {startedAt time : Int} (forward : startedAt ≤ time)
    (elapsed : ¬ Int64.ofInt time - Int64.ofInt startedAt < nanosPause) : startedAt + 2000 ≤ time := by
  have seen : 2000 ≤ (Int64.ofInt time - Int64.ofInt startedAt).toInt := by
    have limit : nanosPause.toInt = 2000 := by decide
    rw [Int64.lt_iff_toInt_lt, limit] at elapsed
    omega
  have apart := Java.Int64.le_of_le_sub_ofInt forward (by omega) seen
  omega

theorem runInv_run [JDouble D] {s t : Feed D} {time : Int} {act : RunAct D} (inv : RunInv s)
    (later : s.now ≤ time) (move : s.run time act = some t) : RunInv t := by
  obtain ⟨test, moved, rfl⟩ := Option.map_eq_some_iff.mp move
  obtain ⟨stamps, marked, startTime, started, ready⟩ := inv
  have started' : s.startedAt ≤ time := started.trans later
  unfold Feed.stampedAt at stamps
  cases act with
  | test =>
    simp only [RunTest.step] at moved
    split at moved
    · rename_i pc
      rw [pc] at ready
      have same : s.test.pending = [] := by rw [RunTest.pending, pc]
      rw [same, List.append_nil] at stamps
      cases moved
      split
      · refine ⟨?_, by simpa using marked, startTime, started', ?_⟩
        · simpa [Feed.stampedAt, same] using stamps
        · rw [pc]
          simpa using ready.later later
      · rename_i elapsed
        rw [startTime] at elapsed
        have apart := pause_over started' elapsed
        refine ⟨?_, by simpa using marked, startTime, started', ?_⟩
        · simpa [Feed.stampedAt, RunTest.pending] using stamps
        · intro e member
          have before := ready e (by simpa using member)
          show e.1 + 2000 ≤ time ∧ e.2 ≤ time
          omega
    · cases moved
  | take increment =>
    simp only [RunTest.step] at moved
    split at moved
    · rename_i pc
      rw [pc] at ready
      have same : s.test.pending = [] := by rw [RunTest.pending, pc]
      rw [same, List.append_nil] at stamps
      cases moved
      refine ⟨?_, by simpa using marked, rfl, Int.le_refl _, ?_⟩
      · simpa [Feed.stampedAt, RunTest.pending] using stamps
      · simpa [RunPc.Ready] using ready.later later
    · cases moved
  | create =>
    simp only [RunTest.step] at moved
    split at moved
    · rename_i pc
      rw [pc] at ready
      have same : s.test.pending = [] := by rw [RunTest.pending, pc]
      rw [same, List.append_nil] at stamps
      cases moved
      refine ⟨?_, marked.append_singleton started' ready, startTime, started', ?_⟩
      · simpa [Feed.stampedAt, RunTest.pending] using stamps
      · intro e member
        rcases List.mem_append.mp member with before | last
        · have earlier := ready e before
          constructor <;> simp only <;> omega
        · cases List.mem_singleton.mp last
          exact ⟨Int.le_refl _, Int.le_refl _⟩
    · cases moved
  | sendEvent =>
    simp only [RunTest.step] at moved
    split at moved
    · rename_i ev pc
      rw [pc] at ready
      cases moved
      refine ⟨?_, by simpa using marked, startTime, started', ?_⟩
      · simpa [Feed.stampedAt, RunTest.pending] using stamps
      · simpa [RunPc.Ready] using ready.later later
    · cases moved

/-- A step of the engine or the listener. -/
theorem RunInv.frame {s t : Feed D} (inv : RunInv s) (later : s.now ≤ t.now) (test : t.test = s.test)
    (sent : t.sent = s.sent) (startedAt : t.startedAt = s.startedAt) (releases : t.releases = s.releases) :
    RunInv t := by
  refine ⟨?_, releases ▸ inv.marked, ?_, ?_, ?_⟩
  · rw [sent, test, Feed.stampedAt, releases]
    exact inv.stamps
  · rw [test, startedAt]
    exact inv.startTime
  · rw [startedAt]
    exact inv.started.trans later
  · rw [test, startedAt, releases]
    exact inv.ready.later later

theorem RunInv.past {s : Feed D} (inv : RunInv s) : ∀ time ∈ s.stampedAt, time ≤ s.now := by
  intro time member
  obtain ⟨e, is_event, rfl⟩ := List.mem_map.mp member
  have ready := inv.ready
  have started := inv.started
  cases pc : s.test.pc with
  | create =>
    rw [pc] at ready
    exact (ready e is_event).2.trans started
  | _ =>
    rw [pc] at ready
    exact (ready e is_event).2

/-- An event the engine was sent carries the time of its stamp. -/
theorem RunInv.stamped {s : Feed D} (inv : RunInv s) {number : Nat} {ev : MarketDataEvent D}
    (found : s.sent[number]? = some ev) :
    ∃ sent, s.stampedAt[number]? = some sent ∧ ev.nanoTimeStamp = Int64.ofInt sent ∧ sent ≤ s.now := by
  obtain ⟨below, -⟩ := List.getElem?_eq_some_iff.mp found
  have stamps := congrArg (fun stamps => stamps[number]?) inv.stamps
  simp only [List.getElem?_map, List.getElem?_append_left below, found, Option.map_some] at stamps
  obtain ⟨sent, is_sent, same⟩ := Option.map_eq_some_iff.mp stamps.symm
  exact ⟨sent, is_sent, same.symm, inv.past sent (List.mem_of_getElem? is_sent)⟩

/-! ## The listener -/

structure ReadInv (s : Feed D) : Prop where
  array : ∀ i length, s.listener.pc = .loop i length → i ≤ length ∧ s.base + length = s.taken
  taken : s.taken ≤ s.sent.length
  sentAt : ∀ r ∈ s.receipts, s.stampedAt[r.number]? = some r.sent
  forward : ∀ r ∈ s.receipts, r.sent ≤ r.received
  order : s.receipts.Pairwise fun r r' => r.number < r'.number
  before : ∀ r ∈ s.receipts, r.number < s.next
  complete : s.listener.escaped = [] → s.receipts.map Receipt.number = List.range s.next
  reading : ∃ acts, exec step .initial acts = some s.listener ∧ events acts = s.receipts.map Receipt.sample

theorem newEvent_cases (s : Listener) (i length : Nat) (event : Sample) :
    ((s.newEvent i length event).pc = .loop (i + 1) length ∧ (s.newEvent i length event).escaped = s.escaped) ∨
      (s.newEvent i length event).pc = .idle ∧ (s.newEvent i length event).escaped ≠ [] := by
  unfold Listener.newEvent
  split
  · exact .inr ⟨rfl, by simp⟩
  · split
    · exact .inl ⟨rfl, rfl⟩
    · exact .inl ⟨rfl, rfl⟩

/-- The steps of the listener with their guards. -/
inductive ListenerStep (s : Listener) : Act → Listener → Prop
  | null (pc : s.pc = .idle) : ListenerStep s (.update none) s
  | update (length : Nat) (pc : s.pc = .idle) :
      ListenerStep s (.update (some length)) { s with pc := .loop 0 length }
  | newEvent (i length : Nat) (event : Sample) (pc : s.pc = .loop i length) (more : i < length) :
      ListenerStep s (.newEvent event) (s.newEvent i length event)
  | endOfArray (i length : Nat) (pc : s.pc = .loop i length) (done : ¬ i < length) :
      ListenerStep s .endOfArray { s with pc := .idle }

theorem listenerStep_of_step {s t : Listener} {act : Act} (move : step s act = some t) : ListenerStep s act t := by
  cases act with
  | update newEvents =>
    simp only [step] at move
    split at move
    · rename_i pc
      split at move
      · cases move
        exact .update _ pc
      · cases move
        exact .null pc
    · cases move
  | newEvent event =>
    simp only [step] at move
    split at move
    · rename_i i length pc
      split at move
      · rename_i more
        cases move
        exact .newEvent i length event pc more
      · cases move
    · cases move
  | endOfArray =>
    simp only [step] at move
    split at move
    · rename_i i length pc
      split at move
      · cases move
      · rename_i done
        cases move
        exact .endOfArray i length pc done
    · cases move

/-- A step of `runTest` adds events and stamps behind those there are. -/
theorem ReadInv.grow {s t : Feed D} (inv : ReadInv s) (listener : t.listener = s.listener) (base : t.base = s.base)
    (taken : t.taken = s.taken) (receipts : t.receipts = s.receipts) (sent : s.sent <+: t.sent)
    (stamped : s.stampedAt <+: t.stampedAt) : ReadInv t := by
  have next : t.next = s.next := by rw [Feed.next, listener, base, taken, Feed.next]
  refine ⟨?_, ?_, ?_, ?_, ?_, ?_, ?_, ?_⟩
  · rw [listener, base, taken]
    exact inv.array
  · rw [taken]
    exact inv.taken.trans sent.length_le
  · rw [receipts]
    intro r member
    obtain ⟨more, grown⟩ := stamped
    have before := inv.sentAt r member
    obtain ⟨below, -⟩ := List.getElem?_eq_some_iff.mp before
    rw [← grown, List.getElem?_append_left below, before]
  · rw [receipts]
    exact inv.forward
  · rw [receipts]
    exact inv.order
  · rw [receipts, next]
    exact inv.before
  · rw [listener, receipts, next]
    exact inv.complete
  · rw [listener, receipts]
    exact inv.reading

/-- The listener is called, or its call ends. -/
theorem ReadInv.quiet {s t : Feed D} (inv : ReadInv s) {act : Act} (noEvent : events [act] = [])
    (move : step s.listener act = some t.listener) (escaped : t.listener.escaped = s.listener.escaped)
    (receipts : t.receipts = s.receipts) (stamped : t.stampedAt = s.stampedAt)
    (next : t.next = s.next) (taken : t.taken ≤ t.sent.length)
    (array : ∀ i length, t.listener.pc = .loop i length → i ≤ length ∧ t.base + length = t.taken) : ReadInv t := by
  refine ⟨array, taken, ?_, ?_, ?_, ?_, ?_, ?_⟩
  · rw [receipts, stamped]
    exact inv.sentAt
  · rw [receipts]
    exact inv.forward
  · rw [receipts]
    exact inv.order
  · rw [receipts, next]
    exact inv.before
  · rw [escaped, receipts, next]
    exact inv.complete
  · obtain ⟨acts, ran, read⟩ := inv.reading
    refine ⟨acts ++ [act], ?_, ?_⟩
    · rw [exec_append, ran]
      simpa [exec] using move
    · rw [events_append, read, noEvent, List.append_nil, receipts]

/-- An event of the array moves the listener on to the next one, and an exception
out of the array. -/
theorem next_newEvent {s : Feed D} (inv : ReadInv s) {i length : Nat} (pc : s.listener.pc = .loop i length)
    (more : i < length) (event : Sample) {t : Feed D} (listener : t.listener = s.listener.newEvent i length event)
    (base : t.base = s.base) (taken : t.taken = s.taken) :
    (∀ i length, t.listener.pc = .loop i length → i ≤ length ∧ t.base + length = t.taken) ∧ s.next < t.next ∧
      (t.listener.escaped = [] → s.listener.escaped = [] ∧ t.next = s.next + 1) := by
  have here : s.next = s.base + i := by rw [Feed.next, pc]
  obtain ⟨-, whole⟩ := inv.array i length pc
  rcases newEvent_cases s.listener i length event with ⟨pc', escaped⟩ | ⟨pc', escaped⟩
  · rw [← listener] at pc' escaped
    have there : t.next = s.base + (i + 1) := by rw [Feed.next, pc', base]
    refine ⟨?_, by omega, fun none => ⟨escaped ▸ none, by omega⟩⟩
    intro j length' at_j
    rw [pc'] at at_j
    cases at_j
    omega
  · rw [← listener] at pc' escaped
    have there : t.next = s.taken := by rw [Feed.next, pc', taken]
    refine ⟨?_, by omega, fun none => absurd none escaped⟩
    intro j length' at_j
    rw [pc'] at at_j
    cases at_j

/-- The listener reads the next event of its array. -/
theorem ReadInv.read {s : Feed D} (inv : ReadInv s) {i length : Nat} (pc : s.listener.pc = .loop i length)
    (more : i < length) {sent time : Int} (is_sent : s.stampedAt[s.next]? = some sent) (past : sent ≤ time) :
    ReadInv { s with
      listener := s.listener.newEvent i length { time := Int64.ofInt sent, nanoTime := Int64.ofInt time }
      now := time
      receipts := s.receipts ++ [{ number := s.next, sent, received := time }] } := by
  generalize read : ({ s with
    listener := s.listener.newEvent i length { time := Int64.ofInt sent, nanoTime := Int64.ofInt time }
    now := time
    receipts := s.receipts ++ [{ number := s.next, sent, received := time }] } : Feed D) = t
  have listener : t.listener = s.listener.newEvent i length
      { time := Int64.ofInt sent, nanoTime := Int64.ofInt time } := by rw [← read]
  have receipts : t.receipts = s.receipts ++ [{ number := s.next, sent, received := time }] := by rw [← read]
  obtain ⟨array, after, complete⟩ := next_newEvent inv pc more _ listener (by rw [← read]) (by rw [← read])
  have stamped : t.stampedAt = s.stampedAt := by rw [← read, Feed.stampedAt, Feed.stampedAt]
  refine ⟨array, ?_, ?_, ?_, ?_, ?_, ?_, ?_⟩
  · rw [← read]
    exact inv.taken
  · rw [receipts, stamped]
    intro r member
    rcases List.mem_append.mp member with before | last
    · exact inv.sentAt r before
    · rw [List.mem_singleton.mp last]
      exact is_sent
  · rw [receipts]
    intro r member
    rcases List.mem_append.mp member with before | last
    · exact inv.forward r before
    · rw [List.mem_singleton.mp last]
      exact past
  · rw [receipts]
    apply List.pairwise_append.mpr
    refine ⟨inv.order, List.pairwise_singleton _ _, fun r member r' last => ?_⟩
    rw [List.mem_singleton.mp last]
    exact inv.before r member
  · rw [receipts]
    intro r member
    rcases List.mem_append.mp member with before | last
    · exact (inv.before r before).trans after
    · rw [List.mem_singleton.mp last]
      exact after
  · intro none
    obtain ⟨none_before, next⟩ := complete none
    rw [receipts, next, List.map_append, inv.complete none_before, List.range_succ]
    rfl
  · obtain ⟨acts, ran, samples⟩ := inv.reading
    refine ⟨acts ++ [.newEvent { time := Int64.ofInt sent, nanoTime := Int64.ofInt time }], ?_, ?_⟩
    · rw [exec_append, ran, listener]
      simp [exec, step, pc, more]
    · rw [events_append, samples, receipts, List.map_append]
      rfl

theorem readInv_step [JDouble D] {s t : Feed D} {timed : Int × FeedAct D} (run : RunInv s) (inv : ReadInv s)
    (move : feedStep s timed = some t) : ReadInv t := by
  obtain ⟨time, act⟩ := timed
  unfold feedStep at move
  split at move
  · rename_i later
    cases act with
    | run act =>
      obtain ⟨test, -, rfl⟩ := Option.map_eq_some_iff.mp move
      refine inv.grow rfl rfl rfl rfl (List.prefix_append _ _) ?_
      simp only [Feed.stampedAt, List.map_append]
      exact List.prefix_append _ _
    | update newEvents =>
      simp only at move
      split at move
      · rename_i enough
        obtain ⟨listener, moved, rfl⟩ := Option.map_eq_some_iff.mp move
        cases listenerStep_of_step moved with
        | null pc =>
          refine inv.quiet rfl moved rfl rfl rfl ?_ enough ?_
          · simp [Feed.next, pc]
          · intro i length at_i
            rw [pc] at at_i
            cases at_i
        | update length pc =>
          refine inv.quiet rfl moved rfl rfl rfl ?_ enough ?_
          · simp [Feed.next, pc]
          · intro i length' at_i
            cases at_i
            exact ⟨Nat.zero_le _, rfl⟩
      · cases move
    | newEvent =>
      simp only at move
      split at move
      · rename_i ev found
        obtain ⟨listener, moved, rfl⟩ := Option.map_eq_some_iff.mp move
        obtain ⟨sent, is_sent, stamp, past⟩ := run.stamped found
        have value : (s.releases.map Prod.snd).getD s.next 0 = sent := by
          rw [List.getD_eq_getElem?_getD]
          exact congrArg (Option.getD · 0) is_sent
        rw [stamp] at moved
        cases listenerStep_of_step moved with
        | newEvent i length event pc more =>
          rw [value]
          exact inv.read pc more is_sent (past.trans later)
      · cases move
    | endOfArray =>
      obtain ⟨listener, moved, rfl⟩ := Option.map_eq_some_iff.mp move
      cases listenerStep_of_step moved with
      | endOfArray i length pc done =>
        obtain ⟨le, whole⟩ := inv.array i length pc
        refine inv.quiet rfl moved rfl rfl rfl ?_ inv.taken ?_
        · simp only [Feed.next, pc]
          omega
        · intro j length' at_j
          cases at_j
  · cases move

theorem runInv_step [JDouble D] {s t : Feed D} {timed : Int × FeedAct D} (inv : RunInv s)
    (move : feedStep s timed = some t) : RunInv t := by
  obtain ⟨time, act⟩ := timed
  unfold feedStep at move
  split at move
  · rename_i later
    cases act with
    | run act => exact runInv_run inv later move
    | update newEvents =>
      simp only at move
      split at move
      · obtain ⟨listener, -, rfl⟩ := Option.map_eq_some_iff.mp move
        exact inv.frame later rfl rfl rfl rfl
      · cases move
    | newEvent =>
      simp only at move
      split at move
      · obtain ⟨listener, -, rfl⟩ := Option.map_eq_some_iff.mp move
        exact inv.frame later rfl rfl rfl rfl
      · cases move
    | endOfArray =>
      obtain ⟨listener, -, rfl⟩ := Option.map_eq_some_iff.mp move
      exact inv.frame later rfl rfl rfl rfl
  · cases move

theorem reachable_feedInv [JDouble D] {start : Int} {s : Feed D} (reach : Reachable feedStep (.initial start) s) :
    RunInv s ∧ ReadInv s := by
  refine reach.invariant (fun s => RunInv s ∧ ReadInv s) ⟨?_, ?_⟩ ?_
  · refine ⟨rfl, ⟨?_, List.Pairwise.nil⟩, rfl, Int.le_refl _, ?_⟩
    · intro e member
      cases member
    · intro e member
      cases member
  · refine ⟨?_, Nat.le_refl _, ?_, ?_, List.Pairwise.nil, ?_, fun _ => rfl, [], rfl, rfl⟩
    · intro i length at_i
      cases at_i
    all_goals
      intro r member
      cases member
  · intro s act t inv move
    exact ⟨runInv_step inv.1 move, readInv_step inv.1 inv.2 move⟩

/-! ## Whole runs -/

/-- The sender of MDEsper is paced, whatever the engine does and whether or not the
reading wraps: the events hold the times of their stamps, two stamps are apart by a
pause for each event between them, and a window of `w` pauses holds at most `w + 1`
of them. -/
theorem run_test_paced [JDouble D] {start : Int} {s : Feed D} (reach : Reachable feedStep (.initial start) s) :
    (s.sent ++ s.test.pending).map MarketDataEvent.nanoTimeStamp = s.stampedAt.map Int64.ofInt ∧
      (∀ j k (_ : j < k) (within : k < s.stampedAt.length),
        (k - j - 1 : Int) * 2000 ≤ s.stampedAt[k] - s.stampedAt[j]) ∧
      ∀ (from_time : Int) (w : Nat),
        (s.stampedAt.filter fun t => decide (from_time ≤ t ∧ t < from_time + w * 2000)).length ≤ w + 1 := by
  obtain ⟨run, -⟩ := reachable_feedInv reach
  refine ⟨run.stamps, ?_, run.marked.window_length_le⟩
  intro j k lt within
  unfold Feed.stampedAt at *
  have apart := run.marked.getElem_le lt (by simpa using within)
  simp only [List.getElem_map]
  omega

/-- The latencies of MDEsper: each event is read at most once, in order and after it
was stamped; and as long as none read is older than 10 seconds, no exception escapes
from the listener, no event is skipped, and the reports hold the true times between
the stamps and the readings, 100000001 to a report, however the engine cuts the
events into arrays. -/
theorem run_test_measured [JDouble D] {start : Int} {s : Feed D} (reach : Reachable feedStep (.initial start) s) :
    (s.receipts.Pairwise fun r r' => r.number < r'.number) ∧
      (∀ r ∈ s.receipts, s.stampedAt[r.number]? = some r.sent ∧ r.sent ≤ r.received) ∧
      ((∀ r ∈ s.receipts, r.elapsed ≤ 10000000000) →
        s.listener.escaped = [] ∧ s.receipts.map Receipt.number = List.range s.receipts.length ∧
        s.listener.printed.map (fun histo => histo.values.map Int64.toInt) =
          groups 100000001 (s.receipts.map Receipt.elapsed) ∧
        s.listener.histo.values.map Int64.toInt = rest 100000001 (s.receipts.map Receipt.elapsed)) := by
  obtain ⟨-, inv⟩ := reachable_feedInv reach
  refine ⟨inv.order, fun r member => ⟨inv.sentAt r member, inv.forward r member⟩, ?_⟩
  intro short
  have inTime : ∀ r ∈ s.receipts, r.InTime := fun r member => ⟨inv.forward r member, short r member⟩
  obtain ⟨acts, ran, samples⟩ := inv.reading
  have within : ∀ event ∈ events acts, WithinRange event := samples ▸ Receipt.all_withinRange inTime
  obtain ⟨reports, quiet⟩ := listenerInv_of_exec ran within
  rw [samples] at reports
  have numbers := inv.complete quiet
  have count := congrArg List.length numbers
  rw [List.length_map, List.length_range] at count
  rw [← count] at numbers
  exact ⟨quiet, numbers, reports.of_receipts inTime⟩

/-- Two events in one array, the second stamped 2000 ns after the start of the first
round, across the wrap of the reading. -/
def twoPauses : List (Int × FeedAct Exact) :=
  [(2 ^ 63 - 4000, .run .test), (2 ^ 63 - 2000, .run .test), (2 ^ 63 - 2000, .run (.take (.finite 1))),
    (2 ^ 63 - 1, .run .create), (2 ^ 63 - 1, .run .sendEvent), (2 ^ 63, .run .test),
    (2 ^ 63, .run (.take (.finite 1))), (2 ^ 63 + 1, .run .create), (2 ^ 63 + 2, .run .sendEvent),
    (2 ^ 63 + 3, .update (some 2)), (2 ^ 63 + 4, .newEvent), (2 ^ 63 + 5, .newEvent), (2 ^ 63 + 6, .endOfArray)]

theorem run_test_paced_two_pauses :
    ∃ s : Feed Exact, exec feedStep (.initial (2 ^ 63 - 4000)) twoPauses = some s ∧
      (s.stampedAt.filter fun t => decide (2 ^ 63 - 1 ≤ t ∧ t < 2 ^ 63 - 1 + 1 * 2000)).length ≤ 1 + 1 := by
  have ran : (exec feedStep (.initial (2 ^ 63 - 4000)) twoPauses).isSome := by decide +kernel
  obtain ⟨s, run⟩ := Option.isSome_iff_exists.mp ran
  exact ⟨s, run, (run_test_paced (.of_exec twoPauses .start run)).2.2 (2 ^ 63 - 1) 1⟩

theorem run_test_measured_two_pauses :
    ∃ s : Feed Exact, exec feedStep (.initial (2 ^ 63 - 4000)) twoPauses = some s ∧
      s.receipts.map Receipt.elapsed = [5, 4] ∧ s.listener.histo.values.map Int64.toInt = [5, 4] := by
  have ran : (exec feedStep (.initial (2 ^ 63 - 4000)) twoPauses).map Feed.receipts =
      some [{ number := 0, sent := 2 ^ 63 - 1, received := 2 ^ 63 + 4 },
        { number := 1, sent := 2 ^ 63 + 1, received := 2 ^ 63 + 5 }] := by decide +kernel
  obtain ⟨s, run, receipts⟩ := Option.map_eq_some_iff.mp ran
  obtain ⟨-, -, measured⟩ := run_test_measured (.of_exec twoPauses .start run)
  rw [receipts] at measured
  obtain ⟨-, -, -, histo⟩ := measured (by simp [Receipt.elapsed])
  refine ⟨s, run, ?_, histo⟩
  rw [receipts]
  rfl

end StreamingPoc.Esper.MDEsper
