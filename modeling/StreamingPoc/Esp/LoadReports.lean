import StreamingPoc.Esp.DbagReports
import StreamingPoc.Esp.LoadData

/-!
# The throughput reports of dbagPublisher::loadData

`millitime` is 0 for a batch of less than half a millisecond, and then the report
divides by zero. The rate is compared with the one of the time between the two
clock readings, which is known in microseconds. No SDK call fails.
-/
namespace StreamingPoc.Esp.LoadData

open StreamingPoc.Lib StreamingPoc.Lib.BatchLoop

/-- A failed SDK call ends the program as a division by zero does. -/
def Pc.phase : Pc → Phase TimeVal
  | .whileTest lcount => .outer lcount
  | .forTest lcount start n => .inner lcount start n
  | .report lcount start => .report lcount start
  | .stopped => .stopped
  | .errorExit | .divisionByZero => .aborted

def Act.tick : Act → Tick TimeVal
  | .enter start => .enter start
  | .leave => .leave
  | .row _ => .row
  | .endRows => .endRows
  | .report endTime => .report endTime

def Options.loop (o : Options) : BatchLoop TimeVal where
  rounds := o.lcount
  rows := o.numRows
  aborts start endTime := millitime start endTime = 0

/-- What a report prints. -/
def figures (o : Options) (batch : TimeVal × TimeVal) : Int64 × Int64 :=
  (millitime batch.1 batch.2, perSec o (millitime batch.1 batch.2))

/-- The rate printed for a batch is less than 1 from the exact one, the elapsed
milliseconds being those between the readings, fractions included. -/
def RateAccurate (o : Options) (batch : TimeVal × TimeVal) (line : Int64 × Int64) : Prop :=
  Accurate o.numRows (micros batch / 1000) line.2.toInt

/-! ## The loop -/

section

variable {o : Options} {rc : Nat → Int32}

/-- A pass of the for loop ends one row. -/
theorem rowCalls_count (tvNsec : Int64) (s : Load) : (s.rowCalls o tvNsec).count .endRow = 1 := by
  have opens : (if o.blockSize ≠ 0 ∧ ¬ s.inblock then [Call.startTransaction] else []).count .endRow = 0 := by
    split <;> rfl
  have publishes : (if o.bufferSize = 0 then [Call.publish] else []).count .endRow = 0 := by
    split <;> rfl
  have writes : (s.fill tvNsec).csrec.writeCalls.count .endRow = 1 := rfl
  rw [Load.rowCalls, List.count_append, List.count_append, opens, publishes, writes]

theorem step_phase (succeed : ∀ n, rc n = 0) {s t : Load} {act : Act}
    (move : step o rc s act = some t) : o.loop.next s.pc.phase act.tick = some t.pc.phase := by
  cases step_from move with
  | enter lcount start pc =>
    rw [pc]
    rfl
  | leave pc =>
    rw [pc]
    rfl
  | row lcount start n tvNsec pc more =>
    obtain ⟨next, passed, -⟩ := row_succeeds succeed o tvNsec s
    rw [passed, pc]
    exact if_pos more
  | endRows lcount start n pc done =>
    rw [issue_succeeds succeed, pc]
    exact if_neg done
  | abort lcount start endTime pc zero =>
    rw [pc]
    simp [Pc.phase, Act.tick, next, Options.loop, zero]
  | report lcount start endTime pc nonzero =>
    rw [pc]
    simp [Pc.phase, Act.tick, next, Options.loop, nonzero]

theorem step_effects (succeed : ∀ n, rc n = 0) {s t : Load} {act : Act}
    (move : step o rc s act = some t) :
    Effects (figures o) s.pc.phase t.pc.phase s.calls t.calls s.printed t.printed act.tick := by
  cases step_from move with
  | enter lcount start pc => exact ⟨rfl, rfl⟩
  | leave pc => exact ⟨rfl, rfl⟩
  | row lcount start n tvNsec pc more =>
    obtain ⟨next, passed, calls, -, printed⟩ := row_succeeds succeed o tvNsec s
    rw [passed]
    refine ⟨?_, printed⟩
    change next.calls.count .endRow = _
    rw [calls, List.count_append, rowCalls_count]
  | endRows lcount start n pc done =>
    rw [issue_succeeds succeed]
    refine ⟨rfl, fun left start' phase => ?_⟩
    cases phase
    rfl
  | abort lcount start endTime pc zero => exact ⟨rfl, fun _ _ _ running => absurd rfl running⟩
  | report lcount start endTime pc nonzero =>
    refine ⟨rfl, fun left start' phase _ => ?_⟩
    rw [pc] at phase
    cases phase
    rfl

/-- Some step is enabled where the loop is not left. -/
theorem step_enabled {s : Load} (notStopped : s.pc.phase ≠ .stopped)
    (notAborted : s.pc.phase ≠ .aborted) (now : TimeVal) :
    ∃ act : Act, (∀ time, act.tick.time = some time → time = now) ∧ (step o rc s act).isSome := by
  cases pc : s.pc with
  | whileTest lcount =>
    cases lcount with
    | zero => exact ⟨.leave, by simp [Act.tick, Tick.time], by simp [step, pc]⟩
    | succ lcount => exact ⟨.enter now, by simp [Act.tick, Tick.time], by simp [step, pc]⟩
  | forTest lcount start n =>
    by_cases more : n < o.numRows
    · exact ⟨.row 0, by simp [Act.tick, Tick.time], by simp [step, pc, more]⟩
    · exact ⟨.endRows, by simp [Act.tick, Tick.time], by simp [step, pc, more]⟩
  | report lcount start =>
    refine ⟨.report now, by simp [Act.tick, Tick.time], ?_⟩
    simp only [step, pc]
    split <;> rfl
  | stopped => simp [pc, Pc.phase] at notStopped
  | errorExit => simp [pc, Pc.phase] at notAborted
  | divisionByZero => simp [pc, Pc.phase] at notAborted

end

/-- `loadData` as a publisher in timed batches. -/
def publisher (o : Options) (rc : Nat → Int32) (succeed : ∀ n, rc n = 0) :
    BatchPublisher Load Act TimeVal (Int64 × Int64) where
  step := step o rc
  initial := .initial o
  loop := o.loop
  phase s := s.pc.phase
  tick := Act.tick
  calls := Load.calls
  printed := Load.printed
  figures := figures o
  initial_phase := rfl
  initial_calls := rfl
  initial_printed := rfl
  step_phase := step_phase succeed
  step_effects := step_effects succeed
  enabled _ notStopped notAborted now := step_enabled notStopped notAborted now

/-! ## The figures -/

/-- The elapsed microseconds `e` at which `n` rows are reported as `1000 * q` a
second and the exact rate is less than 1 from that: `e` rounds to a number of
milliseconds that goes `q` times into `n`. -/
structure Window (n : Nat) (e : Int) (q : Nat) : Prop where
  notShort : 1000 * (n / (q + 1) : Int) + 500 ≤ e
  notLong : 0 < q → e < 1000 * (n / q : Int) + 500
  below : (1000 * q - 1) * e < n * 10 ^ 6
  above : n * 10 ^ 6 < (1000 * q + 1) * e

/-- A batch of half a millisecond or more, whose rate is near a multiple of 1000. -/
def Fair (o : Options) (batch : TimeVal × TimeVal) : Prop := ∃ q : Nat, Window o.numRows (micros batch) q

section

variable {o : Options} {batch : TimeVal × TimeVal}

theorem millitime_eq_zero_iff (forward : Forward batch) :
    millitime batch.1 batch.2 = 0 ↔ micros batch < 500 := by
  have notBefore := forward.notBefore
  rw [← Int64.toInt_inj, Int64.toInt_zero]
  rcases millitime_spec forward with rounded | large
  · rw [rounded]
    omega
  · omega

/-- The rate is computed as from the exactly rounded milliseconds. -/
theorem perSec_toInt (int : o.numRows < 2 ^ 31) (forward : Forward batch) :
    (perSec o (millitime batch.1 batch.2)).toInt =
      (o.numRows : Int) / ((micros batch + 500) / 1000) * 1000 := by
  have notBefore := forward.notBefore
  rw [perSec, Java.Int64.toInt_div_mul_thousand int, Int.tdiv_eq_ediv_of_nonneg (by omega)]
  rcases millitime_spec forward with rounded | ⟨large, large'⟩
  · rw [rounded]
  · rw [Int.ediv_eq_zero_of_lt (by omega) (by omega), Int.ediv_eq_zero_of_lt (by omega) (by omega)]

/-- The milliseconds that go `q` times into the rows are those of an interval of
microseconds. -/
theorem quotient_iff (long : 500 ≤ micros batch) (q : Nat) :
    (o.numRows : Int) / ((micros batch + 500) / 1000) = q ↔
      1000 * (o.numRows / (q + 1) : Int) + 500 ≤ micros batch ∧
        (0 < q → micros batch < 1000 * (o.numRows / q : Int) + 500) := by
  rw [ediv_eq_iff_window (by omega) (by omega) (by omega)]
  refine and_congr (by omega) ?_
  rw [Int.natCast_pos]
  exact imp_congr_right fun _ => by omega

theorem accurate_thousands_iff (positive : 0 < micros batch) (q : Nat) :
    Accurate o.numRows (micros batch / 1000) (q * 1000) ↔
      (1000 * q - 1) * micros batch < o.numRows * 10 ^ 6 ∧
        o.numRows * 10 ^ 6 < (1000 * q + 1) * micros batch := by
  have units : Accurate o.numRows (micros batch / (1000 : Int)) (q * 1000) ↔ _ :=
    accurate_div_iff (by omega) positive
  push_cast at units
  rw [units, abs_lt]
  constructor <;> intro within <;> constructor <;> linarith [within.1, within.2]

/-- The report of a batch does no harm exactly when the batch is fair. -/
theorem fair_iff (int : o.numRows < 2 ^ 31) (forward : Forward batch) :
    millitime batch.1 batch.2 ≠ 0 ∧ RateAccurate o batch (figures o batch) ↔ Fair o batch := by
  rw [RateAccurate, figures, perSec_toInt int forward, Ne, millitime_eq_zero_iff forward, not_lt]
  constructor
  · rintro ⟨long, accurate⟩
    obtain ⟨q, quotient⟩ : ∃ q : Nat, (o.numRows : Int) / ((micros batch + 500) / 1000) = q :=
      Int.eq_ofNat_of_zero_le (Int.ediv_nonneg (by omega) (by omega))
    rw [quotient, accurate_thousands_iff (by omega)] at accurate
    obtain ⟨notShort, notLong⟩ := (quotient_iff long q).mp quotient
    exact ⟨q, notShort, notLong, accurate.1, accurate.2⟩
  · rintro ⟨q, notShort, notLong, below, above⟩
    have rows : 0 ≤ (o.numRows : Int) / (q + 1) := Int.ediv_nonneg (by omega) (by omega)
    have long : 500 ≤ micros batch := by omega
    refine ⟨long, ?_⟩
    rw [(quotient_iff long q).mpr ⟨notShort, notLong⟩, accurate_thousands_iff (by omega)]
    exact ⟨below, above⟩

end

/-- In a run whose clock does not go back within a batch, the reports do no harm
and the rates are accurate exactly when every batch is fair. -/
theorem reported_iff {o : Options} (int : o.numRows < 2 ^ 31) {rc : Nat → Int32}
    (succeed : ∀ n, rc n = 0) {acts : List Act} {s : Load}
    (ran : exec (step o rc) (.initial o) acts = some s)
    (forward : ∀ batch ∈ (publisher o rc succeed).batches acts, Forward batch) :
    (publisher o rc succeed).Reported (RateAccurate o) acts s ↔
      ∀ batch ∈ (publisher o rc succeed).batches acts, Fair o batch := by
  rw [BatchPublisher.reported_iff (p := publisher o rc succeed) ran]
  refine forall₂_congr fun batch member => ?_
  rw [← fair_iff int (forward batch member)]
  exact and_congr_left' decide_eq_false_iff_not

end StreamingPoc.Esp.LoadData

namespace StreamingPoc.Esp

open StreamingPoc.Lib

/-- Throughput reporting. In a run of `publish` or `loadData` whose clock does not
go back within a batch, no report aborts the run and every rate is accurate
exactly when every batch is fair. -/
theorem throughput_reported_iff (dbag : DbagPublisher.Options) (dbagInt : dbag.numRows < 2 ^ 31)
    (load : LoadData.Options) (loadInt : load.numRows < 2 ^ 31) :
    (∀ acts s, exec (DbagPublisher.step dbag) (.initial dbag) acts = some s →
      (∀ batch ∈ (DbagPublisher.publisher dbag).batches acts, batch.1 ≤ batch.2) →
      ((DbagPublisher.publisher dbag).Reported (DbagPublisher.RateAccurate dbag) acts s ↔
        ∀ batch ∈ (DbagPublisher.publisher dbag).batches acts, DbagPublisher.Fair dbag batch)) ∧
    ∀ rc (succeed : ∀ n, rc n = 0) acts s,
      exec (LoadData.step load rc) (.initial load) acts = some s →
      (∀ batch ∈ (LoadData.publisher load rc succeed).batches acts, LoadData.Forward batch) →
      ((LoadData.publisher load rc succeed).Reported (LoadData.RateAccurate load) acts s ↔
        ∀ batch ∈ (LoadData.publisher load rc succeed).batches acts, LoadData.Fair load batch) := by
  constructor
  · intro acts s ran forward
    exact DbagPublisher.reported_iff dbagInt ran forward
  · intro rc succeed acts s ran forward
    exact LoadData.reported_iff loadInt succeed ran forward

section

def dbagTwoRows : DbagPublisher.Options := { blockSize := 0, bufferSize := 0, lcount := 1, numRows := 2 }

def loadTwoRows : LoadData.Options := { blockSize := 0, bufferSize := 0, lcount := 1, numRows := 2 }

/-- A batch of two rows that takes `millis` milliseconds. -/
def dbagBatch (millis : Int64) : List DbagPublisher.Act := [.enter 0, .row, .row, .endRows, .report millis]

/-- A batch of two rows that takes `usec` microseconds. -/
def loadBatch (usec : Int64) : List LoadData.Act :=
  [.enter ⟨0, 0⟩, .row 10, .row 20, .endRows, .report ⟨0, usec⟩]

/-- The two readings of the batch are all that the run reports. -/
theorem batches_dbagBatch (millis : Int64) :
    (DbagPublisher.publisher dbagTwoRows).batches (dbagBatch millis) = [(0, millis)] :=
  rfl

theorem batches_loadBatch (usec : Int64) :
    (LoadData.publisher loadTwoRows (fun _ => 0) fun _ => rfl).batches (loadBatch usec) =
      [(⟨0, 0⟩, ⟨0, usec⟩)] :=
  rfl

theorem loadBatch_runs (usec : Int64) :
    ∃ s, exec (LoadData.step loadTwoRows fun _ => 0) (.initial loadTwoRows) (loadBatch usec) = some s := by
  have written : (exec (LoadData.step loadTwoRows fun _ => 0) (.initial loadTwoRows)
      [.enter ⟨0, 0⟩, .row 10, .row 20, .endRows]).map LoadData.Load.pc = some (.report 0 ⟨0, 0⟩) := by rfl
  obtain ⟨t, ran, pc⟩ := Option.map_eq_some_iff.mp written
  have split : loadBatch usec = [.enter ⟨0, 0⟩, .row 10, .row 20, .endRows] ++ [.report ⟨0, usec⟩] := rfl
  rw [split, exec_append, ran, ← Option.isSome_iff_exists]
  simp only [exec, LoadData.step, pc, Option.bind_some]
  split <;> rfl

theorem throughput_reported_iff_two_rows :
    (∃ s, exec (DbagPublisher.step dbagTwoRows) (.initial dbagTwoRows) (dbagBatch 2) = some s ∧
      (DbagPublisher.publisher dbagTwoRows).Reported (DbagPublisher.RateAccurate dbagTwoRows)
        (dbagBatch 2) s) ∧
    ∃ s, exec (LoadData.step loadTwoRows fun _ => 0) (.initial loadTwoRows) (loadBatch 2000) = some s ∧
      (LoadData.publisher loadTwoRows (fun _ => 0) fun _ => rfl).Reported
        (LoadData.RateAccurate loadTwoRows) (loadBatch 2000) s := by
  have reported := throughput_reported_iff dbagTwoRows (by decide) loadTwoRows (by decide)
  constructor
  · have ran : (exec (DbagPublisher.step dbagTwoRows) (.initial dbagTwoRows) (dbagBatch 2)).isSome := by
      rfl
    obtain ⟨s, run⟩ := Option.isSome_iff_exists.mp ran
    refine ⟨s, run, ?_⟩
    apply (reported.1 _ s run ?_).mpr
    · rw [batches_dbagBatch, List.forall_mem_singleton]
      unfold DbagPublisher.Fair
      decide
    · rw [batches_dbagBatch, List.forall_mem_singleton]
      decide
  · obtain ⟨s, run⟩ := loadBatch_runs 2000
    refine ⟨s, run, ?_⟩
    apply (reported.2 _ (fun _ => rfl) _ s run ?_).mpr
    · rw [batches_loadBatch, List.forall_mem_singleton]
      exact ⟨1, by decide, by decide, by decide, by decide⟩
    · rw [batches_loadBatch, List.forall_mem_singleton]
      exact ⟨by decide, by decide, by decide, by decide⟩

/-- A batch within one millisecond divides by zero, and of a batch of three the
rate is 0 instead of 666. -/
theorem throughput_misreported :
    ¬ (∀ (o : DbagPublisher.Options) acts s, o.numRows < 2 ^ 31 →
      exec (DbagPublisher.step o) (.initial o) acts = some s →
      (∀ batch ∈ (DbagPublisher.publisher o).batches acts, batch.1 ≤ batch.2) →
      (DbagPublisher.publisher o).Reported (DbagPublisher.RateAccurate o) acts s) ∧
    ¬ ∀ (o : LoadData.Options) rc (succeed : ∀ n, rc n = 0) acts s, o.numRows < 2 ^ 31 →
      exec (LoadData.step o rc) (.initial o) acts = some s →
      (∀ batch ∈ (LoadData.publisher o rc succeed).batches acts, LoadData.Forward batch) →
      (LoadData.publisher o rc succeed).Reported (LoadData.RateAccurate o) acts s := by
  constructor
  · intro claim
    have ran : (exec (DbagPublisher.step dbagTwoRows) (.initial dbagTwoRows) (dbagBatch 0)).map
        DbagPublisher.Publish.pc = some .arithmeticException := by rfl
    obtain ⟨s, run, pc⟩ := Option.map_eq_some_iff.mp ran
    have forward : ∀ batch ∈ (DbagPublisher.publisher dbagTwoRows).batches (dbagBatch 0),
        batch.1 ≤ batch.2 := by
      rw [batches_dbagBatch, List.forall_mem_singleton]
      decide
    have noAbort := (claim dbagTwoRows (dbagBatch 0) s (by decide) run forward).noAbort
    exact noAbort (congrArg DbagPublisher.Pc.phase pc)
  · intro claim
    obtain ⟨s, run⟩ := loadBatch_runs 3000
    have forward : ∀ batch ∈ (LoadData.publisher loadTwoRows (fun _ => 0) fun _ => rfl).batches
        (loadBatch 3000), LoadData.Forward batch := by
      rw [batches_loadBatch, List.forall_mem_singleton]
      exact ⟨by decide, by decide, by decide, by decide⟩
    have reported := claim loadTwoRows (fun _ => 0) (fun _ => rfl) (loadBatch 3000) s (by decide) run forward
    have fair := (LoadData.reported_iff (by decide) (fun _ => rfl) run forward).mp reported
    rw [batches_loadBatch, List.forall_mem_singleton] at fair
    obtain ⟨q, -, notLong, -, above⟩ := fair
    have three : LoadData.micros (⟨0, 0⟩, ⟨0, 3000⟩) = 3000 := by decide
    have rows : ((loadTwoRows.numRows : Nat) : Int) = 2 := rfl
    rw [three, rows] at above notLong
    have quotient : (2 : Int) / q ≤ 2 := Int.ediv_le_self q (by omega)
    omega

end

end StreamingPoc.Esp
