import StreamingPoc.Esp.BatchPublisher
import StreamingPoc.Esp.DbagPublisher
import StreamingPoc.Java.Int64

/-!
# The throughput reports of DbagPublisher.publish

A batch whose two clock readings are equal divides by zero and leaves `publish`,
with batches unpublished and no commit. The rate divides before it multiplies.
`numRows` is an int.
-/
namespace StreamingPoc.Esp.DbagPublisher

open StreamingPoc.Lib StreamingPoc.Lib.BatchLoop

def Pc.phase : Pc → Phase Int64
  | .whileTest lcount => .outer lcount
  | .forTest lcount start i => .inner lcount start i
  | .report lcount start => .report lcount start
  | .stopped => .stopped
  | .arithmeticException => .aborted

def Act.tick : Act → Tick Int64
  | .enter now => .enter now
  | .leave => .leave
  | .row => .row
  | .endRows => .endRows
  | .report now => .report now

def Options.loop (o : Options) : BatchLoop Int64 where
  rounds := o.lcount
  rows := o.numRows
  aborts start now := now - start = 0

/-- `end - start` of the numbers. -/
def elapsed (batch : Int64 × Int64) : Int := batch.2.toInt - batch.1.toInt

/-- What a report prints. -/
def figures (o : Options) (batch : Int64 × Int64) : Int64 × Int64 :=
  (batch.2 - batch.1, Int64.ofNat o.numRows / (batch.2 - batch.1) * 1000)

/-- The rate printed for a batch is less than 1 from the exact one. -/
def RateAccurate (o : Options) (batch line : Int64 × Int64) : Prop :=
  Accurate o.numRows (elapsed batch) line.2.toInt

/-! ## The loop -/

theorem step_phase {o : Options} {s t : Publish} {act : Act} (move : step o s act = some t) :
    o.loop.next s.pc.phase act.tick = some t.pc.phase := by
  cases step_from move with
  | enter lcount now pc =>
    rw [pc]
    rfl
  | leave pc =>
    rw [pc]
    rfl
  | row lcount start i pc more =>
    rw [pc]
    exact if_pos more
  | endRows lcount start i pc done =>
    rw [pc]
    exact if_neg done
  | abort lcount start now pc zero =>
    rw [pc]
    simp [Pc.phase, Act.tick, next, Options.loop, zero]
  | report lcount start now pc nonzero =>
    rw [pc]
    simp [Pc.phase, Act.tick, next, Options.loop, nonzero]

/-- A pass of the for loop ends one row. -/
theorem row_count (o : Options) (i : Nat) (s : Publish) :
    (row o i s).calls.count .endRow = s.calls.count .endRow + 1 := by
  have sends : (sendCalls o.bufferSize).count .endRow = 0 := by
    unfold sendCalls
    split <;> rfl
  have opens : (openCalls s.inblock).count .endRow = 0 := by
    unfold openCalls
    split <;> rfl
  have writes : (writeCalls s.columns).count .endRow = 1 := rfl
  cases row_cases o i s with
  | single noBlocks flag calls =>
    rw [calls, List.count_append, List.count_append, writes, sends]
  | stay blocks inside flag calls =>
    rw [calls, List.count_append, List.count_append, writes, opens]
  | close blocks border flag calls =>
    rw [calls, List.count_append, List.count_append, List.count_append, List.count_cons_of_ne (by simp),
      writes, opens, sends]

theorem step_effects {o : Options} {s t : Publish} {act : Act} (move : step o s act = some t) :
    Effects (figures o) s.pc.phase t.pc.phase s.calls t.calls s.printed t.printed act.tick := by
  cases step_from move with
  | enter lcount now pc => exact ⟨rfl, rfl⟩
  | leave pc => exact ⟨rfl, rfl⟩
  | row lcount start i pc more => exact ⟨row_count o i s, rfl⟩
  | endRows lcount start i pc done =>
    refine ⟨rfl, fun left start' phase => ?_⟩
    cases phase
    rfl
  | abort lcount start now pc zero => exact ⟨rfl, fun _ _ _ running => absurd rfl running⟩
  | report lcount start now pc nonzero =>
    refine ⟨rfl, fun left start' phase _ => ?_⟩
    rw [pc] at phase
    cases phase
    rfl

/-- Some step is enabled where the loop is not left. -/
theorem step_enabled (o : Options) {s : Publish} (notStopped : s.pc.phase ≠ .stopped)
    (notAborted : s.pc.phase ≠ .aborted) (now : Int64) :
    ∃ act : Act, (∀ time, act.tick.time = some time → time = now) ∧ (step o s act).isSome := by
  cases pc : s.pc with
  | whileTest lcount =>
    cases lcount with
    | zero => exact ⟨.leave, by simp [Act.tick, Tick.time], by simp [step, pc]⟩
    | succ lcount => exact ⟨.enter now, by simp [Act.tick, Tick.time], by simp [step, pc]⟩
  | forTest lcount start i =>
    by_cases more : i < o.numRows
    · exact ⟨.row, by simp [Act.tick, Tick.time], by simp [step, pc, more]⟩
    · exact ⟨.endRows, by simp [Act.tick, Tick.time], by simp [step, pc, more]⟩
  | report lcount start =>
    refine ⟨.report now, by simp [Act.tick, Tick.time], ?_⟩
    simp only [step, pc]
    split <;> rfl
  | stopped => simp [pc, Pc.phase] at notStopped
  | arithmeticException => simp [pc, Pc.phase] at notAborted

/-- `publish` as a publisher in timed batches. -/
def publisher (o : Options) : BatchPublisher Publish Act Int64 (Int64 × Int64) where
  step := step o
  initial := .initial o
  loop := o.loop
  phase s := s.pc.phase
  tick := Act.tick
  calls s := s.calls
  printed := Publish.printed
  figures := figures o
  initial_phase := rfl
  initial_calls := rfl
  initial_printed := rfl
  step_phase := step_phase
  step_effects := step_effects
  enabled _ notStopped notAborted now := step_enabled o notStopped notAborted now

/-! ## The figures -/

/-- No product or quotient of a report overflows. -/
theorem figures_toInt {o : Options} (int : o.numRows < 2 ^ 31) (batch : Int64 × Int64) :
    (figures o batch).2.toInt = (o.numRows : Int).tdiv (batch.2 - batch.1).toInt * 1000 :=
  Java.Int64.toInt_div_mul_thousand int (batch.2 - batch.1)

/-- A batch that took a millisecond or more, whose remainder is small enough. The
last part is about readings so far apart that their difference wraps. -/
def Fair (o : Options) (batch : Int64 × Int64) : Prop :=
  0 < elapsed batch ∧ 1000 * (o.numRows % elapsed batch) < elapsed batch ∧
    elapsed batch + o.numRows < 2 ^ 64

theorem sub_eq_zero_iff {batch : Int64 × Int64} (forward : batch.1 ≤ batch.2) :
    batch.2 - batch.1 = 0 ↔ elapsed batch = 0 := by
  rw [Int64.le_iff_toInt_le] at forward
  have := Int64.toInt_lt batch.2
  have := Int64.le_toInt batch.1
  rw [← Int64.toInt_inj, Java.Int64.toInt_sub_eq, elapsed, Int64.toInt_zero]
  split <;> omega

theorem accurate_figures_iff {o : Options} (int : o.numRows < 2 ^ 31) {batch : Int64 × Int64}
    (positive : 0 < elapsed batch) :
    Accurate o.numRows (elapsed batch) (figures o batch).2.toInt ↔ Fair o batch := by
  have upper := Int64.toInt_lt batch.2
  have lower := Int64.le_toInt batch.1
  have difference := Java.Int64.toInt_sub_eq batch.2 batch.1
  have reduced : (batch.2.toInt - batch.1.toInt) % 2 ^ 64 = elapsed batch := by
    rw [elapsed] at positive ⊢
    omega
  rw [figures_toInt int, Fair, difference, reduced]
  have small : elapsed batch < 2 ^ 64 := by
    unfold elapsed
    omega
  generalize elapsed batch = e at positive small ⊢
  split
  · rename_i noWrap
    rw [Int.tdiv_eq_ediv_of_nonneg (by omega), accurate_quotient_iff _ positive]
    exact ⟨fun fair => ⟨positive, fair, by omega⟩, fun fair => fair.2.1⟩
  · rename_i wraps
    -- the printed difference is negative
    have remainder : (o.numRows : Int) % e = o.numRows := Int.emod_eq_of_lt (by omega) (by omega)
    obtain ⟨c, rfl⟩ : ∃ c, e = 2 ^ 64 - c := ⟨2 ^ 64 - e, by omega⟩
    have quotient : (o.numRows : Int).tdiv (2 ^ 64 - c - 2 ^ 64) = -(o.numRows / c) := by
      rw [show (2 ^ 64 - c - 2 ^ 64 : Int) = -c by omega, Int.tdiv_neg,
        Int.tdiv_eq_ediv_of_nonneg (by omega)]
    rw [quotient, remainder]
    by_cases below : (o.numRows : Int) < c
    · have none : (o.numRows : Int) / c = 0 := Int.ediv_eq_zero_of_lt (by omega) below
      rw [none, accurate_iff positive]
      simp only [neg_zero, zero_mul, zero_sub, abs_neg]
      rw [abs_of_nonneg (by omega)]
      omega
    · have some_ : 1 ≤ (o.numRows : Int) / c := by
        rw [Int.le_ediv_iff_mul_le (by omega)]
        omega
      refine iff_of_false (not_accurate_of_negative positive (by omega) (by omega)) ?_
      omega

/-- In a run whose clock does not go back within a batch, the reports do no harm
and the rates are accurate exactly when every batch is fair. -/
theorem reported_iff {o : Options} (int : o.numRows < 2 ^ 31) {acts : List Act} {s : Publish}
    (ran : exec (step o) (.initial o) acts = some s)
    (forward : ∀ batch ∈ (publisher o).batches acts, batch.1 ≤ batch.2) :
    (publisher o).Reported (RateAccurate o) acts s ↔
      ∀ batch ∈ (publisher o).batches acts, Fair o batch := by
  rw [BatchPublisher.reported_iff (p := publisher o) ran]
  refine forall₂_congr fun batch member => ?_
  have le := Int64.le_iff_toInt_le.mp (forward batch member)
  have aborts_iff : (publisher o).loop.aborts batch.1 batch.2 = false ↔ 0 < elapsed batch := by
    change decide (batch.2 - batch.1 = 0) = false ↔ _
    rw [decide_eq_false_iff_not, sub_eq_zero_iff (forward batch member), elapsed]
    omega
  rw [aborts_iff]
  constructor
  · rintro ⟨positive, accurate⟩
    exact (accurate_figures_iff int positive).mp accurate
  · intro fair
    exact ⟨fair.1, (accurate_figures_iff int fair.1).mpr fair⟩

end StreamingPoc.Esp.DbagPublisher
