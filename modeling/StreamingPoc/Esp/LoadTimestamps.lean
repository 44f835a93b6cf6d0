import StreamingPoc.Esp.LoadBlocks
import StreamingPoc.Java.Int64
import Mathlib.Data.List.Chain

/-!
# The row timestamps of dbagPublisher::loadData and listen

`loadData` writes the nanoseconds of a `CLOCK_REALTIME` reading, without its
seconds, as the key of a row; `listen` (dbag_publisher.cpp:352-366) subtracts the
key from the nanoseconds of its own reading. Rows may be written to any end: the
SDK calls may fail, and then the program exits.
-/
namespace StreamingPoc.Esp.LoadData

open StreamingPoc.Lib

/-- What `clock_gettime` fills in. -/
structure TimeSpec where
  tvSec : Int
  tvNsec : Int64
  nonneg : 0 ≤ tvNsec.toInt
  small : tvNsec.toInt < 10 ^ 9
  deriving DecidableEq, Repr

namespace TimeSpec

/-- The time of a reading in nanoseconds. -/
def nanos (t : TimeSpec) : Int := t.tvSec * 10 ^ 9 + t.tvNsec.toInt

/-- The nanoseconds from one reading to another. -/
def elapsed (s r : TimeSpec) : Int :=
  (r.tvSec - s.tvSec) * 10 ^ 9 + (r.tvNsec.toInt - s.tvNsec.toInt)

/-- No difference of two nanosecond fields overflows. -/
theorem toInt_sub (s r : TimeSpec) :
    (r.tvNsec - s.tvNsec).toInt = r.tvNsec.toInt - s.tvNsec.toInt := by
  have := s.nonneg
  have := s.small
  have := r.nonneg
  have := r.small
  rw [Java.Int64.toInt_sub_eq]
  split <;> omega

theorem sub_eq_elapsed_iff (s r : TimeSpec) :
    (r.tvNsec - s.tvNsec).toInt = elapsed s r ↔ s.tvSec = r.tvSec := by
  rw [toInt_sub, elapsed]
  omega

/-- Of two readings in turn the second has the larger nanoseconds if and only if
it is in the same second or has them nevertheless. -/
theorem nsec_lt_iff {s t : TimeSpec} (before : s.nanos < t.nanos) :
    s.tvNsec < t.tvNsec ↔ s.tvSec = t.tvSec ∨ s.tvNsec < t.tvNsec := by
  rw [Int64.lt_iff_toInt_lt]
  unfold nanos at before
  omega

end TimeSpec

/-! ## loadData with whole clock readings -/

/-- An action of `loadData` with all that its clock reading fills in. -/
inductive TimedAct where
  | enter (start : TimeVal)
  | leave
  | row (ts : TimeSpec)
  | endRows
  | report (endTime : TimeVal)
  deriving DecidableEq, Repr

def TimedAct.act : TimedAct → Act
  | .enter start => .enter start
  | .leave => .leave
  | .row ts => .row ts.tvNsec
  | .endRows => .endRows
  | .report endTime => .report endTime

def timedStep (o : Options) (rc : Nat → Int32) (s : Load) (act : TimedAct) : Option Load :=
  step o rc s act.act

/-- The send readings. -/
def readings (acts : List TimedAct) : List TimeSpec :=
  acts.filterMap fun
    | .row ts => some ts
    | _ => none

/-- The send readings of the rows that were ended. -/
def sentReadings (o : Options) (acts : List TimedAct) (s : Load) : List TimeSpec :=
  (readings acts).take (s.session o).ended.length

/-! ## listen -/

/-- `count`, the durations computed and the ones at which `printf` is called. -/
structure Listen where
  count : Int32
  durations : List Int64
  printed : List Int64
  deriving DecidableEq, Repr

def Listen.initial : Listen := { count := 0, durations := [], printed := [] }

/-- A pass of the loop over the rows of an event, at the reading `timestamp`;
`esp_row_reader_get_long` fails where column 0 is not a long. `printf` is called
last, and its call is not defined for every duration: see `ListenLoop`. -/
def Listen.nextRow (s : Listen) (row : Row) (timestamp : TimeSpec) : Option Listen := do
  let ts ← Row.key row
  let duration := timestamp.tvNsec - ts
  return {
    count := s.count + 1
    durations := s.durations ++ [duration]
    printed := if s.count % 100000 = 0 then s.printed ++ [duration] else s.printed }

/-- A row of `loadData` as `listen` takes it. -/
structure Receipt where
  sent : TimeSpec
  row : Row
  received : TimeSpec
  deriving DecidableEq, Repr

def Listen.rows (s : Listen) (receipts : List Receipt) : Option Listen :=
  receipts.foldlM (fun s receipt => s.nextRow receipt.row receipt.received) s

/-- The row was written, with this send reading, and is received no earlier. -/
structure Receipt.Of (o : Options) (acts : List TimedAct) (s : Load) (receipt : Receipt) : Prop where
  written : (receipt.sent, receipt.row) ∈ (sentReadings o acts s).zip (s.session o).ended
  later : receipt.sent.nanos ≤ receipt.received.nanos

/-- The keys of the rows increase, and the durations are the elapsed times. -/
structure TimesDetermined (o : Options) (s : Load) (receipts : List Receipt) : Prop where
  increasing : ∃ keys : List Int64, (s.session o).ended.map Row.key = keys.map some ∧
    keys.Pairwise (· < ·)
  durations : ∃ heard, Listen.initial.rows receipts = some heard ∧
    heard.durations.map Int64.toInt =
      receipts.map fun receipt => receipt.sent.elapsed receipt.received

/-! ## The keys of a run -/

/-- The calls of an action when none fails. -/
def Load.actCalls (o : Options) (s : Load) : TimedAct → List Call
  | .row ts => s.rowCalls o ts.tvNsec
  | .endRows =>
    match s.pc with
    | .forTest lcount _ _ => if lcount = 0 then [.commit] else []
    | _ => []
  | _ => []

theorem continue_calls {rc : Nat → Int32} {s : Load} {pc : Pc} {next : Except (List Call) Load} {calls : List Call}
    (issued : next.map Load.calls = issue rc s.calls calls) :
    ∃ made, made <+: calls ∧ (s.continue pc next).calls = s.calls ++ made ∧
      ((s.continue pc next).pc ≠ .errorExit → made = calls) := by
  rcases issue_made rc s.calls calls with all | ⟨made, before, failed⟩
  · rw [all] at issued
    cases next with
    | error stopped => cases issued
    | ok t => exact ⟨calls, List.prefix_refl _, Except.ok.inj issued, fun _ => rfl⟩
  · rw [failed] at issued
    cases next with
    | error stopped =>
      exact ⟨made, before, Except.error.inj issued, fun running => absurd rfl running⟩
    | ok t => cases issued

/-- A step makes the calls of its action, or those up to one that fails. -/
theorem timedStep_calls {o : Options} {rc : Nat → Int32} {s t : Load} {act : TimedAct}
    (move : timedStep o rc s act = some t) :
    s.pc ≠ .errorExit ∧ ∃ made, made <+: s.actCalls o act ∧ t.calls = s.calls ++ made ∧
      (t.pc ≠ .errorExit → made = s.actCalls o act) := by
  have quiet : ∀ u : Load, u.calls = s.calls →
      ∃ made, made <+: [] ∧ u.calls = s.calls ++ made ∧ (u.pc ≠ .errorExit → made = []) :=
    fun u same => ⟨[], List.prefix_refl _, by simp [same], fun _ => rfl⟩
  have taken : StepFrom o rc s act.act t := step_from move
  cases act with
  | enter start =>
    cases taken with
    | enter lcount start pc => exact ⟨by simp [pc], quiet _ rfl⟩
  | leave =>
    cases taken with
    | leave pc => exact ⟨by simp [pc], quiet _ rfl⟩
  | row ts =>
    cases taken with
    | row lcount start n tvNsec pc more =>
      exact ⟨by simp [pc], continue_calls (row_calls o rc ts.tvNsec s)⟩
  | endRows =>
    cases taken with
    | endRows lcount start n pc done =>
      refine ⟨by simp [pc], ?_⟩
      rw [Load.actCalls, pc]
      refine continue_calls (?_ : Except.map Load.calls _ = issue rc s.calls _)
      cases issue rc s.calls (if lcount = 0 then [.commit] else []) <;> rfl
  | report endTime =>
    cases taken with
    | abort lcount start endTime pc zero => exact ⟨by simp [pc], quiet _ rfl⟩
    | report lcount start endTime pc nonzero => exact ⟨by simp [pc], quiet _ rfl⟩

/-- A pass that is made whole ends one row, and its key is the nanoseconds. -/
theorem ended_rowCalls (buffered : Bool) (o : Options) (tvNsec : Int64) (s : Load) (session : Session) :
    (((s.rowCalls o tvNsec).foldl (Session.call buffered) session).ended).map Row.key =
      session.ended.map Row.key ++ [some tvNsec] := by
  have opened : ((if o.blockSize ≠ 0 ∧ ¬ s.inblock then [Call.startTransaction] else []).foldl
      (Session.call buffered) session).ended = session.ended := by
    split <;> rfl
  have written : (s.fill tvNsec).csrec.writeCalls = writeCalls [.long tvNsec.toUInt64.toInt64,
      .float 100, .float 101, .integer s.csrec.bidQty, .integer s.csrec.askQty] := rfl
  have published : ∀ u : Session, ((if o.bufferSize = 0 then [Call.publish] else []).foldl
      (Session.call buffered) u).ended = u.ended := by
    intro u
    split
    · exact Session.publish_ended buffered u
    · rfl
  rw [Load.rowCalls, List.foldl_append, List.foldl_append, published, written,
    Session.foldl_writeCalls, Session.addRow_ended, opened, List.map_append]
  rfl

/-- The keys of the rows ended are the nanoseconds of the first send readings,
and of all of them as long as no call fails. -/
structure KeysWritten (o : Options) (acts : List TimedAct) (s : Load) : Prop where
  keys : (s.session o).ended.map Row.key <+: (readings acts).map fun ts => some ts.tvNsec
  all : s.pc ≠ .errorExit →
    (s.session o).ended.map Row.key = (readings acts).map fun ts => some ts.tvNsec

theorem keysWritten_step {o : Options} {rc : Nat → Int32} {acts : List TimedAct} {s t : Load}
    {act : TimedAct} (written : KeysWritten o acts s) (move : timedStep o rc s act = some t) :
    KeysWritten o (acts ++ [act]) t := by
  obtain ⟨running, made, ⟨rest, calls⟩, after, whole⟩ := timedStep_calls move
  have session_t : t.session o = made.foldl (Session.call o.buffered) (s.session o) := by
    rw [Load.session, after, session_append]
    rfl
  have keys_all : (((s.actCalls o act).foldl (Session.call o.buffered) (s.session o)).ended).map Row.key =
      (readings (acts ++ [act])).map fun ts => some ts.tvNsec := by
    unfold readings
    rw [List.filterMap_append, List.map_append]
    have before := written.all running
    unfold readings at before
    rw [← before]
    cases act with
    | row ts => exact ended_rowCalls o.buffered o ts.tvNsec s (s.session o)
    | endRows =>
      have unchanged : ((s.actCalls o .endRows).foldl (Session.call o.buffered) (s.session o)).ended =
          (s.session o).ended := by
        show ((match s.pc with
          | .forTest lcount _ _ => if lcount = 0 then [Call.commit] else []
          | _ => []).foldl (Session.call o.buffered) (s.session o)).ended = _
        split
        · split <;> rfl
        · rfl
      rw [unchanged]
      exact (List.append_nil _).symm
    | _ => exact (List.append_nil _).symm
  constructor
  · rw [← keys_all, session_t, ← calls, List.foldl_append]
    exact (Session.ended_prefix_foldl o.buffered rest _).map Row.key
  · intro running'
    rw [← keys_all, session_t, whole running']

theorem exec_keysWritten {o : Options} {rc : Nat → Int32} {acts : List TimedAct} {s : Load}
    (ran : exec (timedStep o rc) (.initial o) acts = some s) : KeysWritten o acts s := by
  refine exec_invariant (KeysWritten o) ?_ ?_ ran
  · exact ⟨List.prefix_refl _, fun _ => rfl⟩
  · intro _ _ _ _ written move
    exact keysWritten_step written move

/-- The keys of the rows are the nanoseconds of their send readings. -/
theorem keys_eq {o : Options} {rc : Nat → Int32} {acts : List TimedAct} {s : Load}
    (ran : exec (timedStep o rc) (.initial o) acts = some s) :
    (s.session o).ended.map Row.key =
      (sentReadings o acts s).map fun ts => some ts.tvNsec := by
  have before := (exec_keysWritten ran).keys
  rw [List.prefix_iff_eq_take, List.length_map, ← List.map_take] at before
  exact before

/-! ## When the timestamps determine the times -/

theorem keys_increase_iff {sent : List TimeSpec}
    (increasing : sent.Pairwise fun a b => a.nanos < b.nanos) :
    (sent.map TimeSpec.tvNsec).Pairwise (· < ·) ↔
      sent.IsChain fun a b => a.tvSec = b.tvSec ∨ a.tvNsec < b.tvNsec := by
  have inTurn : sent.IsChain fun a b => a.nanos < b.nanos := increasing.isChain
  rw [← List.isChain_iff_pairwise, List.isChain_map, List.isChain_iff_getElem,
    List.isChain_iff_getElem]
  exact forall₂_congr fun i within => TimeSpec.nsec_lt_iff (inTurn.getElem i within)

/-- A row with this key is heard with the difference of the nanoseconds. -/
theorem rows_heard {receipts : List Receipt}
    (keyed : ∀ receipt ∈ receipts, Row.key receipt.row = some receipt.sent.tvNsec) (s : Listen) :
    ∃ heard, s.rows receipts = some heard ∧ heard.durations = s.durations ++
      receipts.map fun receipt => receipt.received.tvNsec - receipt.sent.tvNsec := by
  induction receipts generalizing s with
  | nil => exact ⟨s, rfl, (List.append_nil _).symm⟩
  | cons receipt receipts ih =>
    have first := keyed receipt List.mem_cons_self
    obtain ⟨heard, rest, durations⟩ := ih (fun later member => keyed later (List.mem_cons_of_mem _ member))
      { count := s.count + 1
        durations := s.durations ++ [receipt.received.tvNsec - receipt.sent.tvNsec]
        printed := if s.count % 100000 = 0 then
          s.printed ++ [receipt.received.tvNsec - receipt.sent.tvNsec] else s.printed }
    refine ⟨heard, ?_, ?_⟩
    · rw [← rest, Listen.rows, List.foldlM_cons, Listen.nextRow, first]
      rfl
    · rw [durations, List.map_cons, List.append_assoc, List.singleton_append]

/-- The row of a receipt has the nanoseconds of its send reading as its key. -/
theorem Receipt.Of.key {o : Options} {rc : Nat → Int32} {acts : List TimedAct} {s : Load}
    (ran : exec (timedStep o rc) (.initial o) acts = some s) {receipt : Receipt}
    (of : receipt.Of o acts s) : Row.key receipt.row = some receipt.sent.tvNsec := by
  obtain ⟨i, within, at_i⟩ := List.getElem_of_mem of.written
  rw [List.getElem_zip, Prod.mk.injEq] at at_i
  rw [List.length_zip] at within
  have keys := congrArg (·[i]?) (keys_eq ran)
  simp only [List.getElem?_map] at keys
  rw [List.getElem?_eq_getElem (by omega), List.getElem?_eq_getElem (by omega), at_i.1, at_i.2] at keys
  exact Option.some.inj keys

/-- The row timestamps determine the times of a run exactly when no row is sent
in a later second than the row before it with no larger nanoseconds, and every
row is received in the second in which it was sent. -/
theorem times_determined_iff {o : Options} {rc : Nat → Int32} {acts : List TimedAct} {s : Load}
    (ran : exec (timedStep o rc) (.initial o) acts = some s)
    (increasing : (readings acts).Pairwise fun a b => a.nanos < b.nanos)
    {receipts : List Receipt} (of : ∀ receipt ∈ receipts, receipt.Of o acts s) :
    TimesDetermined o s receipts ↔
      ((sentReadings o acts s).IsChain fun a b => a.tvSec = b.tvSec ∨ a.tvNsec < b.tvNsec) ∧
        ∀ receipt ∈ receipts, receipt.sent.tvSec = receipt.received.tvSec := by
  have keys : (s.session o).ended.map Row.key =
      ((sentReadings o acts s).map TimeSpec.tvNsec).map some := by
    rw [keys_eq ran, List.map_map]
    rfl
  have inTurn : (sentReadings o acts s).Pairwise fun a b => a.nanos < b.nanos :=
    increasing.sublist (List.take_sublist _ _)
  obtain ⟨heard, listened, durations⟩ := rows_heard (fun receipt member => (of receipt member).key ran)
    Listen.initial
  have durations_eq_iff : (heard.durations.map Int64.toInt = receipts.map fun receipt =>
      receipt.sent.elapsed receipt.received) ↔
        ∀ receipt ∈ receipts, receipt.sent.tvSec = receipt.received.tvSec := by
    rw [durations, Listen.initial, List.nil_append, List.map_map, List.map_inj_left]
    exact forall₂_congr fun receipt _ => TimeSpec.sub_eq_elapsed_iff receipt.sent receipt.received
  rw [← keys_increase_iff inTurn, ← durations_eq_iff]
  constructor
  · rintro ⟨⟨written, same, sorted⟩, heard', listened', exact⟩
    rw [keys] at same
    rw [listened] at listened'
    cases listened'
    rw [← (List.map_inj_right fun _ _ => Option.some.inj).mp same] at sorted
    exact ⟨sorted, exact⟩
  · rintro ⟨sorted, exact⟩
    exact ⟨⟨_, keys, sorted⟩, heard, listened, exact⟩

def atNanos (tvSec : Int) (tvNsec : Int64) (nonneg : 0 ≤ tvNsec.toInt)
    (small : tvNsec.toInt < 10 ^ 9) : TimeSpec := { tvSec, tvNsec, nonneg, small }

/-- Two rows in one second; the first is received before the second is sent. -/
theorem times_determined_iff_two_rows :
    ∃ s, exec (timedStep sampleOptions fun _ => 0) (.initial sampleOptions)
      [.enter { tvSec := 0, tvUsec := 0 }, .row (atNanos 0 10 (by decide) (by decide)),
        .row (atNanos 0 20 (by decide) (by decide))] = some s ∧
      TimesDetermined sampleOptions s [{
        sent := atNanos 0 10 (by decide) (by decide)
        row := { operation := some .insert,
                 columns := [.long 10, .float 100, .float 101, .integer 0, .integer 0] }
        received := atNanos 0 15 (by decide) (by decide) }] := by
  let acts : List TimedAct := [.enter { tvSec := 0, tvUsec := 0 },
    .row (atNanos 0 10 (by decide) (by decide)), .row (atNanos 0 20 (by decide) (by decide))]
  have ran : (exec (timedStep sampleOptions fun _ => 0) (.initial sampleOptions) acts).map
      (fun s => (s.session sampleOptions).ended) = some
        [{ operation := some .insert,
           columns := [.long 10, .float 100, .float 101, .integer 0, .integer 0] },
         { operation := some .insert,
           columns := [.long 20, .float 100, .float 101, .integer 0, .integer 0] }] := by
    decide +kernel
  obtain ⟨s, run, ended⟩ := Option.map_eq_some_iff.mp ran
  refine ⟨s, run, ?_⟩
  have sent : sentReadings sampleOptions acts s = readings acts := by
    rw [sentReadings, ended]
    rfl
  refine (times_determined_iff run (by decide) ?_).mpr ⟨?_, by decide⟩
  · intro receipt member
    rw [List.mem_singleton] at member
    subst member
    refine ⟨?_, by decide⟩
    rw [sent, ended]
    exact List.mem_cons_self
  · rw [sent]
    decide

/-- Rows sent at 0.999999999 s and at 1.000000005 s: the key of the second is
smaller. -/
theorem key_decreases :
    ¬ ∀ (o : Options) (rc : Nat → Int32) (acts : List TimedAct) (s : Load) (receipts : List Receipt),
      exec (timedStep o rc) (.initial o) acts = some s →
      (readings acts).Pairwise (fun a b => a.nanos < b.nanos) →
      (∀ receipt ∈ receipts, receipt.Of o acts s) → TimesDetermined o s receipts := by
  intro claim
  let acts : List TimedAct := [.enter { tvSec := 0, tvUsec := 0 },
    .row (atNanos 0 999999999 (by decide) (by decide)), .row (atNanos 1 5 (by decide) (by decide))]
  have ran : (exec (timedStep sampleOptions fun _ => 0) (.initial sampleOptions) acts).map
      (fun s => (s.session sampleOptions).ended.map Row.key) =
        some [some 999999999, some 5] := by decide +kernel
  obtain ⟨s, run, written⟩ := Option.map_eq_some_iff.mp ran
  have determined := claim sampleOptions (fun _ => 0) acts s [] run (by decide) (by simp)
  obtain ⟨keys, same, sorted⟩ := determined.increasing
  rw [written] at same
  have keys_eq : keys = [999999999, 5] := by
    refine (List.map_inj_right fun _ _ => Option.some.inj).mp ?_
    exact same.symm
  rw [keys_eq] at sorted
  revert sorted
  decide

end StreamingPoc.Esp.LoadData
