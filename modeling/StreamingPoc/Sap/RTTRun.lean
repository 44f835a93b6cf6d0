import StreamingPoc.Latency.Receipts
import StreamingPoc.Sap.RTTBlocks

/-!
# RTTClient as a whole

`doPublish` and `doSubcribe` in two threads of one process, with the server
between them. The server is assumed to hand each row that was sent or queued to
the subscriber at most once and in the order of writing, which `RTT.inOrder`
says; a subscriber that comes late or loses data misses rows. Both threads read
one clock, real time reduced to a long.
-/
namespace StreamingPoc.Sap.RTTClient

open StreamingPoc.Lib StreamingPoc.Esp StreamingPoc.Latency
open DoSubcribe (Subscriber EventType)

/-- `sentAt` holds the times at which the rows were stamped. No step of the code
reads it, nor `receipts`. -/
structure RTT where
  publish : Publish
  subscriber : Subscriber
  now : Int
  sentAt : List Int
  receipts : List Receipt

inductive TripAct where
  | publish (act : Act)
  | event (type : EventType)
  | nextRow (number : Nat)
  | noMoreRows

/-- `System.nanoTime()` in `doPublish` is the time of the step. -/
def Act.at (time : Int) : Act → Act
  | .row _ => .row (Int64.ofInt time)
  | act => act

def Act.stamps : Act → Bool
  | .row _ => true
  | _ => false

/-- The rows that were sent or queued. -/
def RTT.server (o : Options) (s : RTT) : List Row := (Esp.delivered o.buffered s.publish.calls).handed

/-- The assumption about the server. -/
def RTT.inOrder (s : RTT) (number : Nat) : Bool := s.receipts.all fun r => r.number < number

def tripStep (o : Options) (s : RTT) (timed : Int × TripAct) : Option RTT :=
  if s.now ≤ timed.1 then
    match timed.2 with
    | .publish act =>
      (step o s.publish (act.at timed.1)).map fun publish =>
        { s with publish, now := timed.1, sentAt := s.sentAt ++ if act.stamps then [timed.1] else [] }
    | .event type =>
      (DoSubcribe.step s.subscriber (.event type)).map fun subscriber =>
        { s with subscriber, now := timed.1 }
    | .nextRow number =>
      match (s.server o)[number]?.bind Row.key with
      | some time =>
        if s.inOrder number then
          (DoSubcribe.step s.subscriber (.row { time, nanoTime := Int64.ofInt timed.1 })).map fun subscriber =>
            { s with
              subscriber
              now := timed.1
              receipts := s.receipts ++
                [{ number, sent := s.sentAt.getD number 0, received := timed.1 }] }
        else none
      | none => none
    | .noMoreRows =>
      (DoSubcribe.step s.subscriber .noMoreRows).map fun subscriber =>
        { s with subscriber, now := timed.1 }
  else none

def RTT.initial (o : Options) (start : Int) : RTT :=
  { publish := .initial o, subscriber := .initial, now := start, sentAt := [], receipts := [] }

/-! ## The rows that are written -/

def insertRow (nanoTime : Int64) : Row := { operation := some .insert, columns := rowColumns nanoTime }

/-- The row a step of `doPublish` writes. -/
def Act.rows : Act → List Row
  | .row nanoTime => [insertRow nanoTime]
  | _ => []

section

variable (o : Options) (s : Publish) (nanoTime : Int64)

/-- Whatever the tunables, a pass writes one row. -/
theorem ended_row (i : Int32) :
    ((row o i nanoTime s).session o).ended = (s.session o).ended ++ [insertRow nanoTime] :=
  BlockWriter.ended_row o.buffered o.blockSize o.bufferSize _ (rowColumns nanoTime) s.toBlockWriter

end

theorem ended_step {o : Options} {s t : Publish} {act : Act} (move : step o s act = some t) :
    (t.session o).ended = (s.session o).ended ++ act.rows := by
  cases step_from move with
  | row count start i nanoTime pc more => exact ended_row o s nanoTime i
  | commit start finish pc =>
    rw [Publish.session, session_commit]
    exact (List.append_nil _).symm
  | _ => exact (List.append_nil _).symm

/-! ## The rows that are read -/

structure TripInv (o : Options) (s : RTT) : Prop where
  stamps : (s.publish.session o).ended.map Row.key = s.sentAt.map fun time => some (Int64.ofInt time)
  past : ∀ time ∈ s.sentAt, time ≤ s.now
  sent : ∀ r ∈ s.receipts, s.sentAt[r.number]? = some r.sent
  order : s.receipts.Pairwise fun r r' => r.number < r'.number
  forward : ∀ r ∈ s.receipts, r.sent ≤ r.received
  reading : ∃ acts, exec DoSubcribe.step .initial acts = some s.subscriber ∧
    DoSubcribe.rows acts = s.receipts.map Receipt.sample

/-- The server has a prefix of the rows written. -/
theorem server_prefix (o : Options) (s : RTT) : s.server o <+: (s.publish.session o).ended :=
  delivered_prefix o.buffered s.publish.calls

/-- A row of the server was stamped in the past. -/
theorem TripInv.stamped {o : Options} {s : RTT} (inv : TripInv o s) {number : Nat} {time : Int64}
    (found : (s.server o)[number]?.bind Row.key = some time) :
    ∃ sent, s.sentAt[number]? = some sent ∧ time = Int64.ofInt sent ∧ sent ≤ s.now := by
  obtain ⟨row, at_number, long⟩ := Option.bind_eq_some_iff.mp found
  obtain ⟨more, whole⟩ := server_prefix o s
  obtain ⟨below, -⟩ := List.getElem?_eq_some_iff.mp at_number
  have stamps := congrArg (fun stamps => stamps[number]?) inv.stamps
  simp only [List.getElem?_map, ← whole, List.getElem?_append_left below, at_number, Option.map_some,
    long] at stamps
  obtain ⟨sent, is_sent, same⟩ := Option.map_eq_some_iff.mp stamps.symm
  exact ⟨sent, is_sent, (Option.some.inj same).symm, inv.past sent (List.mem_of_getElem? is_sent)⟩

/-- A step of the subscriber that reads no row. -/
theorem TripInv.quiet {o : Options} {s : RTT} (inv : TripInv o s) {time : Int} (later : s.now ≤ time)
    {act : DoSubcribe.Act} {subscriber : Subscriber} (noRow : DoSubcribe.rows [act] = [])
    (move : DoSubcribe.step s.subscriber act = some subscriber) :
    TripInv o { s with subscriber, now := time } := by
  refine ⟨inv.stamps, ?_, inv.sent, inv.order, inv.forward, ?_⟩
  · exact fun x member => (inv.past x member).trans later
  · obtain ⟨acts, ran, rows⟩ := inv.reading
    refine ⟨acts ++ [act], ?_, ?_⟩
    · rw [exec_append, ran]
      simpa [exec] using move
    · rw [rows_append, rows, noRow, List.append_nil]

theorem TripInv.receive {o : Options} {s : RTT} (inv : TripInv o s) {time : Int} (later : s.now ≤ time)
    {number : Nat} {sent : Int} {subscriber : Subscriber} (is_sent : s.sentAt[number]? = some sent)
    (past : sent ≤ s.now) (next : ∀ r ∈ s.receipts, r.number < number)
    (move : DoSubcribe.step s.subscriber (.row { time := Int64.ofInt sent, nanoTime := Int64.ofInt time }) =
      some subscriber) :
    TripInv o { s with
      subscriber
      now := time
      receipts := s.receipts ++ [{ number, sent, received := time }] } := by
  refine ⟨inv.stamps, ?_, ?_, ?_, ?_, ?_⟩
  · exact fun x member => (inv.past x member).trans later
  · intro r member
    rcases List.mem_append.mp member with before | last
    · exact inv.sent r before
    · rw [List.mem_singleton.mp last]
      exact is_sent
  · apply List.pairwise_append.mpr
    refine ⟨inv.order, List.pairwise_singleton _ _, fun r member r' last => ?_⟩
    rw [List.mem_singleton.mp last]
    exact next r member
  · intro r member
    rcases List.mem_append.mp member with before | last
    · exact inv.forward r before
    · rw [List.mem_singleton.mp last]
      exact past.trans later
  · obtain ⟨acts, ran, rows⟩ := inv.reading
    refine ⟨acts ++ [.row { time := Int64.ofInt sent, nanoTime := Int64.ofInt time }], ?_, ?_⟩
    · rw [exec_append, ran]
      simpa [exec] using move
    · rw [rows_append, rows, List.map_append]
      rfl

/-- A step of `doPublish` reads the clock where it writes a row. -/
theorem key_rows (time : Int) (act : Act) :
    ((act.at time).rows).map Row.key =
      (if act.stamps then [time] else []).map fun time => some (Int64.ofInt time) := by
  cases act <;> rfl

theorem TripInv.written {o : Options} {s : RTT} (inv : TripInv o s) {time : Int} (later : s.now ≤ time)
    {act : Act} {publish : Publish} (move : step o s.publish (act.at time) = some publish) :
    TripInv o { s with
      publish
      now := time
      sentAt := s.sentAt ++ if act.stamps then [time] else [] } := by
  refine ⟨?_, ?_, ?_, inv.order, inv.forward, inv.reading⟩
  · rw [ended_step move, List.map_append, inv.stamps, key_rows, List.map_append]
  · intro x member
    rcases List.mem_append.mp member with before | last
    · exact (inv.past x before).trans later
    · split at last
      · exact Int.le_of_eq (List.mem_singleton.mp last)
      · cases last
  · intro r member
    have before := inv.sent r member
    obtain ⟨below, -⟩ := List.getElem?_eq_some_iff.mp before
    rw [List.getElem?_append_left below, before]

theorem tripInv_step {o : Options} {s t : RTT} {timed : Int × TripAct} (inv : TripInv o s)
    (move : tripStep o s timed = some t) : TripInv o t := by
  obtain ⟨time, act⟩ := timed
  unfold tripStep at move
  split at move
  · rename_i later
    cases act with
    | publish act =>
      obtain ⟨publish, moved, rfl⟩ := Option.map_eq_some_iff.mp move
      exact inv.written later moved
    | event type =>
      obtain ⟨subscriber, moved, rfl⟩ := Option.map_eq_some_iff.mp move
      exact inv.quiet later rfl moved
    | nextRow number =>
      simp only at move
      split at move
      · rename_i stamp found
        obtain ⟨sent, is_sent, rfl, past⟩ := inv.stamped found
        split at move
        · rename_i next
          obtain ⟨subscriber, moved, rfl⟩ := Option.map_eq_some_iff.mp move
          have value : s.sentAt.getD number 0 = sent := by
            rw [List.getD_eq_getElem?_getD, is_sent, Option.getD_some]
          rw [value]
          exact inv.receive later is_sent past (by simpa [RTT.inOrder] using next) moved
        · cases move
      · cases move
    | noMoreRows =>
      obtain ⟨subscriber, moved, rfl⟩ := Option.map_eq_some_iff.mp move
      exact inv.quiet later rfl moved
  · cases move

theorem tripInv_initial (o : Options) (start : Int) : TripInv o (.initial o start) where
  stamps := rfl
  past time member := by cases member
  sent r member := by cases member
  order := List.Pairwise.nil
  forward r member := by cases member
  reading := ⟨[], rfl, rfl⟩

theorem reachable_tripInv {o : Options} {start : Int} {s : RTT} (reach : Reachable (tripStep o) (.initial o start) s) :
    TripInv o s :=
  reach.invariant (TripInv o) (tripInv_initial o start) fun _ _ _ inv move => tripInv_step inv move

/-- Rows that are read in time end in the reports. -/
theorem TripInv.reported {o : Options} {s : RTT} (inv : TripInv o s)
    (short : ∀ r ∈ s.receipts, r.elapsed ≤ 10000000000) :
    (∀ thrown, s.subscriber.pc ≠ .threw thrown) ∧
      s.subscriber.reports.map (fun hi => hi.values.map Int64.toInt) =
        groups 200000 (s.receipts.map Receipt.elapsed) ∧
      s.subscriber.hi.values.map Int64.toInt = rest 200000 (s.receipts.map Receipt.elapsed) := by
  obtain ⟨acts, ran, rows⟩ := inv.reading
  have inTime : ∀ r ∈ s.receipts, r.InTime := fun r member => ⟨inv.forward r member, short r member⟩
  have within : ∀ row ∈ DoSubcribe.rows acts, WithinRange row := rows ▸ Receipt.all_withinRange inTime
  obtain ⟨reports, alive⟩ := subscriberInv_of_exec ran within
  rw [rows] at reports
  obtain ⟨grouped, remaining⟩ := reports.of_receipts inTime
  exact ⟨alive, grouped, remaining⟩

/-- In every interleaving of the two threads, and whatever rows the subscriber
misses: the rows are stamped in the order of writing; each row is read after it
was stamped and, the server being in order, at most once and in that order; and as
long as no row read is older than 10 seconds, no exception ends `doSubcribe`, its
reports hold 200000 rows each, and what they hold are the true times between the
stamping and the reading of these rows, in order. -/
theorem round_trips_reported {o : Options} {start : Int} {s : RTT}
    (reach : Reachable (tripStep o) (.initial o start) s) :
    ((s.publish.session o).ended.map Row.key = s.sentAt.map fun time => some (Int64.ofInt time)) ∧
      (s.receipts.Pairwise fun r r' => r.number < r'.number) ∧
      (∀ r ∈ s.receipts, s.sentAt[r.number]? = some r.sent ∧ r.sent ≤ r.received) ∧
      ((∀ r ∈ s.receipts, r.elapsed ≤ 10000000000) →
        (∀ thrown, s.subscriber.pc ≠ .threw thrown) ∧
        s.subscriber.reports.map (fun hi => hi.values.map Int64.toInt) =
          groups 200000 (s.receipts.map Receipt.elapsed) ∧
        s.subscriber.hi.values.map Int64.toInt = rest 200000 (s.receipts.map Receipt.elapsed)) := by
  have inv := reachable_tripInv reach
  exact ⟨inv.stamps, inv.order, fun r member => ⟨inv.sent r member, inv.forward r member⟩, inv.reported⟩

/-- The tunables of the source but for a single round of two rows. -/
def twoRecords : Options := { blockSize := 0, bufferSize := 1000, loopRecs := 2, count := 1 }

/-- Two rows of which the first is missed; the reading wraps before the second is read. -/
def missedRow : List (Int × TripAct) :=
  [(0, .publish (.enter 0)), (1, .publish (.row 0)), (2 ^ 63 - 3, .publish (.row 0)), (2 ^ 63 - 2, .event .data),
    (2 ^ 63 + 4, .nextRow 1)]

theorem round_trips_reported_missed_row :
    ∃ s : RTT, exec (tripStep twoRecords) (.initial twoRecords 0)
        missedRow = some s ∧
      s.receipts = [{ number := 1, sent := 2 ^ 63 - 3, received := 2 ^ 63 + 4 }] ∧
      s.subscriber.hi.values.map Int64.toInt = [7] := by
  have ran : (exec (tripStep twoRecords) (.initial twoRecords 0)
      missedRow).map RTT.receipts =
        some [{ number := 1, sent := 2 ^ 63 - 3, received := 2 ^ 63 + 4 }] := by decide +kernel
  obtain ⟨s, run, receipts⟩ := Option.map_eq_some_iff.mp ran
  obtain ⟨-, -, -, reported⟩ := round_trips_reported (.of_exec missedRow .start run)
  rw [receipts] at reported
  obtain ⟨-, -, remaining⟩ := reported (by simp [Receipt.elapsed])
  exact ⟨s, run, receipts, remaining⟩

/-! ## Complete runs -/

/-- The rows that are written when `doPublish` is at a program point. -/
def Pc.rowsDue (o : Options) : Pc → Int
  | .whileTest count => (o.count.toInt - count.toInt) * o.loopRecs.toInt
  | .forTest count _ i => (o.count.toInt - count.toInt - 1) * o.loopRecs.toInt + (i.toInt - 1)
  | .commit | .returned => o.count.toInt * o.loopRecs.toInt

def Pc.InRange (o : Options) : Pc → Prop
  | .whileTest count => 0 ≤ count.toInt
  | .forTest count _ i => 0 ≤ count.toInt ∧ i.toInt ≤ o.loopRecs.toInt + 1
  | .commit | .returned => True

/-- A step writes the rows that become due by it. -/
theorem rowsDue_step {o : Options} (notGreatest : o.loopRecs ≠ Int32.maxValue) (records : 1 ≤ o.loopRecs)
    {s t : Publish} {act : Act} (inRange : s.pc.InRange o) (move : step o s act = some t) :
    t.pc.rowsDue o = s.pc.rowsDue o + act.rows.length ∧ t.pc.InRange o := by
  have one : (1 : Int32).toInt = 1 := rfl
  have zero : (0 : Int32).toInt = 0 := rfl
  rw [Int32.le_iff_toInt_le, one] at records
  cases step_from move with
  | enter count now pc positive =>
    rw [pc]
    rw [Int32.lt_iff_toInt_lt, zero] at positive
    have decrement : (count - 1).toInt = count.toInt - 1 := by
      have below := count.toInt_lt
      rw [Int32.toInt_sub, one, Int.bmod_eq_of_le] <;> omega
    have round : o.count.toInt - (count.toInt - 1) - 1 = o.count.toInt - count.toInt := by omega
    simp only [Pc.rowsDue, Pc.InRange, Act.rows, decrement, round, one, List.length_nil]
    omega
  | leave count pc done =>
    rw [Int32.lt_iff_toInt_lt, zero] at done
    rw [pc, Pc.InRange] at inRange
    have last : count.toInt = 0 := by omega
    simp [pc, Pc.rowsDue, Pc.InRange, Act.rows, last]
  | row count start i nanoTime pc more =>
    rw [Int32.le_iff_toInt_le] at more
    rw [pc, Pc.InRange] at inRange
    have notLast : i ≠ Int32.maxValue := by
      rintro rfl
      have above := o.loopRecs.toInt_lt
      apply notGreatest
      rw [← Int32.toInt_inj, Int32.toInt_maxValue]
      rw [Int32.toInt_maxValue] at more
      omega
    have next := Java.Int32.toInt_add_one notLast
    simp only [pc, Pc.rowsDue, Pc.InRange, Act.rows, next, List.length_singleton]
    push_cast
    omega
  | endRows count start i now pc done =>
    rw [Int32.le_iff_toInt_le] at done
    rw [pc, Pc.InRange] at inRange
    have last : i.toInt - 1 = o.loopRecs.toInt := by omega
    have round : (o.count.toInt - count.toInt) * o.loopRecs.toInt =
        (o.count.toInt - count.toInt - 1) * o.loopRecs.toInt + o.loopRecs.toInt := by
      rw [Int.sub_mul _ 1, Int.one_mul, Int.sub_add_cancel]
    simp only [pc, Pc.rowsDue, Pc.InRange, Act.rows, last, round, List.length_nil]
    omega
  | commit start finish pc => simp [pc, Pc.rowsDue, Pc.InRange, Act.rows]

structure RowsInv (o : Options) (s : Publish) : Prop where
  written : ((s.session o).ended.length : Int) = s.pc.rowsDue o
  inRange : s.pc.InRange o

theorem rowsInv_step {o : Options} (notGreatest : o.loopRecs ≠ Int32.maxValue) (records : 1 ≤ o.loopRecs)
    {s t : Publish} {act : Act} (inv : RowsInv o s) (move : step o s act = some t) : RowsInv o t := by
  have ended := congrArg List.length (ended_step move)
  obtain ⟨due, inRange⟩ := rowsDue_step notGreatest records inv.inRange move
  refine ⟨?_, inRange⟩
  rw [due, ← inv.written, ended, List.length_append]
  push_cast
  rfl

theorem rowsInv_initial {o : Options} (rounds : 0 ≤ o.count) : RowsInv o (.initial o) where
  written := by
    have empty : ((Publish.initial o).session o).ended = [] := rfl
    rw [empty]
    simp [Publish.initial, Pc.rowsDue]
  inRange := Int32.le_iff_toInt_le.mp rounds

/-- Without blocks and without a buffer each row is sent when it is ended. -/
structure Unblocked (o : Options) (s : Publish) : Prop where
  block : (s.session o).block = none
  held : (s.session o).held = []

theorem unblocked_row {o : Options} (noBlocks : ¬ 0 < o.blockSize) (direct : o.bufferSize = 0)
    {s : Publish} (inv : Unblocked o s) (i : Int32) (nanoTime : Int64) :
    Unblocked o (row o i nanoTime s) := by
  cases row_cases o i nanoTime s with
  | single _ flag calls =>
    have noBuffer : o.buffered = false := by simp [Options.buffered, direct]
    have session_t : (row o i nanoTime s).session o = List.foldl _ (s.session o) _ :=
      session_of_grown o.buffered calls
    rw [List.foldl_append, Session.foldl_writeCalls, Session.addRow_outside _ inv.block,
      Session.foldl_sendCalls, if_pos direct, noBuffer] at session_t
    constructor
    · rw [session_t, Session.publish_block, Session.complete_block]
      exact inv.block
    · rw [session_t, Session.publish_unbuffered_held]
  | stay blocks inside flag calls => exact absurd blocks noBlocks
  | close blocks atBorder flag calls => exact absurd blocks noBlocks

theorem unblocked_step {o : Options} (noBlocks : ¬ 0 < o.blockSize) (direct : o.bufferSize = 0)
    {s t : Publish} {act : Act} (inv : Unblocked o s) (move : step o s act = some t) : Unblocked o t := by
  cases step_from move with
  | row count start i nanoTime pc more =>
    have passed := unblocked_row noBlocks direct inv i nanoTime
    exact ⟨passed.block, passed.held⟩
  | commit start finish pc =>
    constructor
    · rw [Publish.session, session_commit]
      exact inv.block
    · rw [Publish.session, session_commit]
      exact inv.held
  | _ => exact ⟨inv.block, inv.held⟩

/-- The steps of `doPublish` in a run of both threads. -/
theorem publish_invariant {o : Options} (P : Publish → Prop) (init : P (.initial o))
    (keep : ∀ s act t, P s → step o s act = some t → P t) {start : Int} {s : RTT}
    (reach : Reachable (tripStep o) (.initial o start) s) : P s.publish := by
  refine reach.invariant (fun s => P s.publish) init ?_
  rintro s ⟨time, act⟩ t before move
  unfold tripStep at move
  split at move
  · cases act with
    | publish act =>
      obtain ⟨publish, moved, rfl⟩ := Option.map_eq_some_iff.mp move
      exact keep s.publish (act.at time) publish before moved
    | nextRow number =>
      simp only at move
      split at move
      · split at move
        · obtain ⟨subscriber, moved, rfl⟩ := Option.map_eq_some_iff.mp move
          exact before
        · cases move
      · cases move
    | _ =>
      obtain ⟨subscriber, moved, rfl⟩ := Option.map_eq_some_iff.mp move
      exact before
  · cases move

/-- Without blocks all rows written are sent or queued. -/
theorem server_all {o : Options} (noBlocks : ¬ 0 < o.blockSize) (buffer : 0 ≤ o.bufferSize) {start : Int}
    {s : RTT} (reach : Reachable (tripStep o) (.initial o start) s) :
    s.server o = (s.publish.session o).ended := by
  rcases Java.Int32.eq_zero_or_pos buffer with direct | positive
  · have unblocked : Unblocked o s.publish := publish_invariant (Unblocked o) ⟨rfl, rfl⟩
      (fun _ _ _ inv move => unblocked_step noBlocks direct inv move) reach
    have noBuffer : o.buffered = false := by simp [Options.buffered, direct]
    have same : s.server o = (s.publish.session o).handed := by
      rw [RTT.server, Publish.session, noBuffer, delivered_unbuffered]
    have conserved : (s.publish.session o).Conserved o.buffered := session_conserved o.buffered s.publish.calls
    rw [same, ← conserved.rows, unblocked.held, Session.openRows, unblocked.block, Option.getD_none,
      List.append_nil, List.append_nil]
  · have buffered : o.buffered = true := decide_eq_true positive
    rw [RTT.server, Publish.session, buffered]
    exact (delivered_buffered s.publish.calls).1

/-- As many increasing numbers below `n` as there are, are all of them. -/
theorem eq_range_of_increasing {numbers : List Nat} {n : Nat} (order : numbers.Pairwise (· < ·))
    (below : ∀ k ∈ numbers, k < n) (count : numbers.length = n) : numbers = List.range n := by
  have distinct : numbers.Nodup := order.imp Nat.ne_of_lt
  have sub : numbers.Subperm (List.range n) :=
    List.subperm_of_subset distinct fun k member => List.mem_range.mpr (below k member)
  have perm : numbers.Perm (List.range n) := sub.perm_of_length_le (by simp [count])
  refine perm.eq_of_pairwise ?_ order List.pairwise_lt_range
  intro a b _ _ lt gt
  omega

/-- Without blocks, with a buffer size that is not negative, and with tunables that
let the loops end (`count` from 0, `loopRecs` from 1 and not the greatest int):
when `doPublish` has returned, `count * loopRecs` rows were written and all of them
are sent or queued, in order; a subscriber that misses none of them and reads each
within 10 seconds has read every row exactly once, and printed a report for each
200000 of them. -/
theorem all_rows_reported {o : Options} (noBlocks : o.blockSize ≤ 0) (buffer : 0 ≤ o.bufferSize)
    (rounds : 0 ≤ o.count) (records : 1 ≤ o.loopRecs) (notGreatest : o.loopRecs ≠ Int32.maxValue)
    {start : Int} {s : RTT} (reach : Reachable (tripStep o) (.initial o start) s)
    (returned : s.publish.pc = .returned) :
    (s.sentAt.length : Int) = o.count.toInt * o.loopRecs.toInt ∧
      (s.server o).map Row.key = s.sentAt.map (fun time => some (Int64.ofInt time)) ∧
      (s.receipts.length = s.sentAt.length → (∀ r ∈ s.receipts, r.elapsed ≤ 10000000000) →
        s.receipts.map Receipt.number = List.range s.sentAt.length ∧
          s.receipts.map Receipt.sent = s.sentAt ∧
          s.subscriber.reports.length = s.sentAt.length / 200000 ∧
          s.subscriber.hi.values.length = s.sentAt.length % 200000) := by
  have inv := reachable_tripInv reach
  have stamps := inv.stamps
  have rows : RowsInv o s.publish := publish_invariant (RowsInv o) (rowsInv_initial rounds)
    (fun _ _ _ inv move => rowsInv_step notGreatest records inv move) reach
  have all_handed : s.server o = (s.publish.session o).ended :=
    server_all (Int32.not_lt.mpr noBlocks) buffer reach
  have count : (s.publish.session o).ended.length = s.sentAt.length := by
    have lengths := congrArg List.length stamps
    rwa [List.length_map, List.length_map] at lengths
  refine ⟨?_, by rw [all_handed, stamps], ?_⟩
  · have written := rows.written
    rw [returned, count] at written
    exact written
  · intro all short
    have numbers : s.receipts.map Receipt.number = List.range s.sentAt.length := by
      apply eq_range_of_increasing
      · exact List.pairwise_map.mpr inv.order
      · intro k member
        obtain ⟨r, is_receipt, rfl⟩ := List.mem_map.mp member
        exact (List.getElem?_eq_some_iff.mp (inv.sent r is_receipt)).1
      · rw [List.length_map, all]
    obtain ⟨-, grouped, remaining⟩ := inv.reported short
    obtain ⟨groups_length, rest_length⟩ := length_groups 200000 (s.receipts.map Receipt.elapsed)
    have reports := congrArg List.length grouped
    have left := congrArg List.length remaining
    rw [List.length_map, groups_length, List.length_map, all] at reports
    rw [List.length_map, rest_length, List.length_map, all] at left
    refine ⟨numbers, ?_, reports, left⟩
    apply List.ext_getElem (by rw [List.length_map, all])
    intro k below below'
    rw [List.length_map] at below
    have number : s.receipts[k].number = k := by
      have at_k := congrArg (fun numbers => numbers[k]?) numbers
      simpa [below, below'] using at_k
    have value := inv.sent s.receipts[k] (List.getElem_mem below)
    rw [number, List.getElem?_eq_getElem below', Option.some.injEq] at value
    rw [List.getElem_map, value]

/-- A round of two rows, each read before the next one is written. -/
def twoRows : List (Int × TripAct) :=
  [(0, .event .data), (5, .publish (.enter 0)), (10, .publish (.row 0)), (15, .nextRow 0),
    (20, .publish (.row 0)), (26, .nextRow 1), (27, .publish (.endRows 0)), (28, .publish .leave),
    (29, .publish (.commit 0 0))]

theorem all_rows_reported_two_rows :
    ∃ s : RTT, exec (tripStep twoRecords) (.initial twoRecords 0)
        twoRows = some s ∧
      s.receipts.map Receipt.sent = s.sentAt ∧ s.subscriber.hi.values.length = 2 := by
  have ran : (exec (tripStep twoRecords) (.initial twoRecords 0)
      twoRows).map (fun s => (s.publish.pc, s.sentAt, s.receipts)) =
        some (.returned, [10, 20], [⟨0, 10, 15⟩, ⟨1, 20, 26⟩]) := by decide +kernel
  obtain ⟨s, run, same⟩ := Option.map_eq_some_iff.mp ran
  obtain ⟨returned, times⟩ := Prod.mk.inj same
  obtain ⟨sentAt, receipts⟩ := Prod.mk.inj times
  obtain ⟨-, -, complete⟩ := all_rows_reported (by decide) (by decide) (by decide) (by decide) (by decide)
    (.of_exec twoRows .start run) returned
  rw [sentAt, receipts] at complete
  obtain ⟨-, sent, -, left⟩ := complete rfl (by simp [Receipt.elapsed])
  refine ⟨s, run, ?_, left⟩
  rw [receipts, sentAt]
  exact sent

end StreamingPoc.Sap.RTTClient
