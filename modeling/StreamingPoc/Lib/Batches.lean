import StreamingPoc.Lib.Transition

/-!
# Loops of timed batches

A loop of `rounds` batches of `rows` rows. A batch is timed from its entry to its
report, and the report may abort the loop. A run that is not aborted makes a fixed
number of steps; `spans` are the times of the batches that were reported.
-/
namespace StreamingPoc.Lib

structure BatchLoop (τ : Type) where
  rounds : Nat
  rows : Nat
  aborts : τ → τ → Bool

namespace BatchLoop

/-- Where the loop is, with the batches left after this one. -/
inductive Phase (τ : Type) where
  | outer (left : Nat)
  | inner (left : Nat) (start : τ) (i : Nat)
  | report (left : Nat) (start : τ)
  | stopped
  | aborted
  deriving DecidableEq, Repr

inductive Tick (τ : Type) where
  | enter (time : τ)
  | leave
  | row
  | endRows
  | report (time : τ)
  deriving DecidableEq, Repr

variable {τ : Type}

def Tick.isRow : Tick τ → Bool
  | .row => true
  | _ => false

/-- The clock reading that a tick takes. -/
def Tick.time : Tick τ → Option τ
  | .enter time | .report time => some time
  | _ => none

def next (loop : BatchLoop τ) : Phase τ → Tick τ → Option (Phase τ)
  | .outer (left + 1), .enter time => some (.inner left time 0)
  | .outer 0, .leave => some .stopped
  | .inner left start i, .row => if i < loop.rows then some (.inner left start (i + 1)) else none
  | .inner left start i, .endRows => if i < loop.rows then none else some (.report left start)
  | .report left start, .report time =>
    some (if loop.aborts start time then .aborted else .outer left)
  | _, _ => none

/-- The last entry and the batches reported, after one more tick. -/
def measure : Option τ × List (τ × τ) → Tick τ → Option τ × List (τ × τ)
  | (_, spans), .enter time => (some time, spans)
  | (some start, spans), .report time => (some start, spans ++ [(start, time)])
  | measured, _ => measured

def measured (ticks : List (Tick τ)) : Option τ × List (τ × τ) := ticks.foldl measure (none, [])

/-- Entry and report of each batch. -/
def spans (ticks : List (Tick τ)) : List (τ × τ) := (measured ticks).2

def rowTicks (ticks : List (Tick τ)) : Nat := ticks.countP Tick.isRow

theorem measured_append_singleton (ticks : List (Tick τ)) (tick : Tick τ) :
    measured (ticks ++ [tick]) = measure (measured ticks) tick := by
  simp [measured]

theorem rowTicks_append_singleton (ticks : List (Tick τ)) (tick : Tick τ) :
    rowTicks (ticks ++ [tick]) = rowTicks ticks + if tick.isRow then 1 else 0 := by
  simp [rowTicks, List.countP_cons]

section

variable (loop : BatchLoop τ)

def stepsLeft : Phase τ → Nat
  | .outer left => left * (loop.rows + 3) + 1
  | .inner left _ i => left * (loop.rows + 3) + (loop.rows - i) + 3
  | .report left _ => left * (loop.rows + 3) + 2
  | .stopped | .aborted => 0

def rowsLeft : Phase τ → Nat
  | .outer left | .report left _ => left * loop.rows
  | .inner left _ i => left * loop.rows + (loop.rows - i)
  | .stopped | .aborted => 0

def Phase.batchesLeft : Phase τ → Nat
  | .outer left => left
  | .inner left _ _ | .report left _ => left + 1
  | .stopped | .aborted => 0

def Phase.start : Phase τ → Option τ
  | .inner _ start _ | .report _ start => some start
  | _ => none

/-- The rows of the last batch are written. -/
def Phase.afterLast : Phase τ → Bool
  | .outer 0 | .report 0 _ | .stopped => true
  | _ => false

/-- A run up to a phase, where no report has aborted it. -/
structure Runs (ticks : List (Tick τ)) (phase : Phase τ) : Prop where
  running : phase ≠ .aborted
  entered : ∀ start, phase.start = some start → (measured ticks).1 = some start
  within : ∀ left start i, phase = .inner left start i → i ≤ loop.rows
  steps : ticks.length + loop.stepsLeft phase = loop.rounds * (loop.rows + 3) + 1
  rows : rowTicks ticks + loop.rowsLeft phase = loop.rounds * loop.rows
  batches : (spans ticks).length + phase.batchesLeft = loop.rounds
  passed : ∀ span ∈ spans ticks, loop.aborts span.1 span.2 = false

/-- Or its last report has, and was the first to do so. -/
def Aborts (ticks : List (Tick τ)) : Prop :=
  ∃ before span, spans ticks = before ++ [span] ∧ loop.aborts span.1 span.2

end

variable {loop : BatchLoop τ}

/-- Everything one tick can do. -/
inductive Moves (loop : BatchLoop τ) : Phase τ → Tick τ → Phase τ → Prop where
  | enter (left : Nat) (time : τ) : Moves loop (.outer (left + 1)) (.enter time) (.inner left time 0)
  | leave : Moves loop (.outer 0) .leave .stopped
  | row (left : Nat) (start : τ) (i : Nat) (more : i < loop.rows) :
      Moves loop (.inner left start i) .row (.inner left start (i + 1))
  | endRows (left : Nat) (start : τ) (i : Nat) (done : ¬ i < loop.rows) :
      Moves loop (.inner left start i) .endRows (.report left start)
  | report (left : Nat) (start time : τ) (passes : loop.aborts start time = false) :
      Moves loop (.report left start) (.report time) (.outer left)
  | abort (left : Nat) (start time : τ) (aborts : loop.aborts start time) :
      Moves loop (.report left start) (.report time) .aborted

theorem next_cases {phase phase' : Phase τ} {tick : Tick τ}
    (move : loop.next phase tick = some phase') : Moves loop phase tick phase' := by
  unfold next at move
  split at move
  · cases move
    exact .enter _ _
  · cases move
    exact .leave
  · split at move
    · rename_i more
      cases move
      exact .row _ _ _ more
    · cases move
  · split at move
    · cases move
    · rename_i done
      cases move
      exact .endRows _ _ _ done
  · cases move
    split
    · rename_i aborts
      exact .abort _ _ _ aborts
    · rename_i passes
      exact .report _ _ _ (Bool.eq_false_iff.mpr passes)
  · cases move

/-- A tick that reports nothing keeps the batches. -/
theorem Runs.quiet {ticks : List (Tick τ)} {phase phase' : Phase τ} {tick : Tick τ}
    (runs : loop.Runs ticks phase) (running : phase' ≠ .aborted)
    (entered : ∀ start, phase'.start = some start →
      (measure (measured ticks) tick).1 = some start)
    (same : (measure (measured ticks) tick).2 = spans ticks)
    (within : ∀ left start i, phase' = .inner left start i → i ≤ loop.rows)
    (steps : loop.stepsLeft phase = loop.stepsLeft phase' + 1)
    (rows : loop.rowsLeft phase = loop.rowsLeft phase' + if tick.isRow then 1 else 0)
    (batches : phase'.batchesLeft = phase.batchesLeft) : loop.Runs (ticks ++ [tick]) phase' := by
  have total := runs.steps
  have written := runs.rows
  have spans_eq : spans (ticks ++ [tick]) = spans ticks := by
    rw [spans, measured_append_singleton, same]
  refine ⟨running, ?_, within, ?_, ?_, ?_, ?_⟩
  · rw [measured_append_singleton]
    exact entered
  · rw [List.length_append, List.length_singleton]
    omega
  · rw [rowTicks_append_singleton]
    omega
  · rw [spans_eq, batches]
    exact runs.batches
  · rw [spans_eq]
    exact runs.passed

/-- Only a report ends a batch. -/
theorem spans_quiet (ticks : List (Tick τ)) {tick : Tick τ} (quiet : ∀ time, tick ≠ .report time) :
    spans (ticks ++ [tick]) = spans ticks := by
  unfold spans
  rw [measured_append_singleton]
  cases tick with
  | report time => exact absurd rfl (quiet time)
  | _ => rcases measured ticks with ⟨_ | _, _⟩ <;> rfl

/-- The reading at which a batch was entered is known at its report. -/
theorem spans_report {ticks : List (Tick τ)} {left : Nat} {start time : τ}
    (runs : loop.Runs ticks (.report left start)) :
    spans (ticks ++ [.report time]) = spans ticks ++ [(start, time)] := by
  have entry : (measured ticks).1 = some start := runs.entered start rfl
  unfold spans
  rw [measured_append_singleton]
  rcases before : measured ticks with ⟨last, done⟩
  rw [before] at entry
  subst entry
  rfl

theorem runs_next {ticks : List (Tick τ)} {phase phase' : Phase τ} {tick : Tick τ}
    (runs : loop.Runs ticks phase) (move : loop.next phase tick = some phase') :
    loop.Runs (ticks ++ [tick]) phase' ∨
      phase' = .aborted ∧ loop.Aborts (ticks ++ [tick]) := by
  cases next_cases move with
  | enter left time =>
    left
    refine runs.quiet (by simp) (fun _ entered => entered) rfl ?_ ?_ ?_ rfl
    · rintro _ _ _ ⟨⟩
      exact Nat.zero_le _
    · simp only [stepsLeft, Nat.succ_mul]
      omega
    · simp [rowsLeft, Nat.succ_mul, Tick.isRow]
  | leave =>
    left
    refine runs.quiet (by simp) (by simp [Phase.start]) rfl (by simp) ?_ ?_ rfl
    · simp [stepsLeft]
    · simp [rowsLeft, Tick.isRow]
  | row left start i more =>
    left
    refine runs.quiet (by simp) ?_ rfl ?_ ?_ ?_ rfl
    · exact fun _ started => runs.entered _ started
    · rintro _ _ _ ⟨⟩
      exact more
    · simp only [stepsLeft]
      omega
    · simp only [rowsLeft, Tick.isRow, if_true]
      omega
  | endRows left start i done =>
    left
    refine runs.quiet (by simp) ?_ rfl (by simp) ?_ ?_ rfl
    · exact fun _ started => runs.entered _ started
    · simp only [stepsLeft]
      omega
    · simp only [rowsLeft, Tick.isRow, Bool.false_eq_true, if_false]
      omega
  | report left start time passes =>
    left
    have grown : spans (ticks ++ [.report time]) = spans ticks ++ [(start, time)] := spans_report runs
    have total := runs.steps
    have written := runs.rows
    have counted := runs.batches
    refine ⟨by simp, by simp [Phase.start], by simp, ?_, ?_, ?_, ?_⟩
    · rw [List.length_append, List.length_singleton]
      simp only [stepsLeft] at total ⊢
      omega
    · rw [rowTicks_append_singleton]
      exact written
    · rw [grown, List.length_append, List.length_singleton]
      simp only [Phase.batchesLeft] at counted ⊢
      omega
    · intro span member
      rw [grown, List.mem_append, List.mem_singleton] at member
      rcases member with before | rfl
      · exact runs.passed span before
      · exact passes
  | abort left start time aborts =>
    right
    exact ⟨rfl, spans ticks, (start, time), spans_report runs, aborts⟩

/-- Every run is one that no report has aborted, or its last report did. -/
theorem exec_runs {ticks : List (Tick τ)} {phase : Phase τ}
    (ran : exec loop.next (.outer loop.rounds) ticks = some phase) :
    loop.Runs ticks phase ∨ phase = .aborted ∧ loop.Aborts ticks := by
  refine exec_invariant (fun ticks phase =>
    loop.Runs ticks phase ∨ phase = .aborted ∧ loop.Aborts ticks) ?_ ?_ ran
  · left
    refine ⟨by simp, by simp [Phase.start], by simp, ?_, ?_, ?_, ?_⟩
    · simp [stepsLeft]
    · simp [rowTicks, rowsLeft]
    · simp [spans, measured, Phase.batchesLeft]
    · simp [spans, measured]
  · rintro ticks phase tick phase' (runs | ⟨rfl, -⟩) move
    · exact runs_next runs move
    · cases tick <;> cases move

end BatchLoop

end StreamingPoc.Lib
