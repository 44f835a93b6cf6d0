import StreamingPoc.Esp.Sdk
import StreamingPoc.Lib.Batches
import StreamingPoc.Lib.Rates
import Mathlib.Data.List.Forall2

/-!
# Publishers in timed batches

What `DbagPublisher.publish` and `dbagPublisher::loadData` have in common: a loop
of batches that write rows, commit after the last batch and print a figure for
each. A `BatchPublisher` is a step function with the proofs that it is one.
-/
namespace StreamingPoc.Esp

open StreamingPoc.Lib StreamingPoc.Lib.BatchLoop

/-- What a tick does to the calls and the lines: a row is written, the last batch is
committed, a report that does not abort prints its figures. -/
def Effects {τ ℓ : Type} (figures : τ × τ → ℓ) (phase phase' : Phase τ) (calls calls' : List Call)
    (printed printed' : List ℓ) : Tick τ → Prop
  | .enter _ | .leave => calls' = calls ∧ printed' = printed
  | .row => calls'.count .endRow = calls.count .endRow + 1 ∧ printed' = printed
  | .endRows => printed' = printed ∧ ∀ left start, phase' = .report left start →
    calls' = calls ++ if left = 0 then [.commit] else []
  | .report time => calls' = calls ∧ ∀ left start, phase = .report left start →
    phase' ≠ .aborted → printed' = printed ++ [figures (start, time)]

/-- `phase` and `tick` project the steps to those of a loop of batches; `figures`
is what the report of a batch prints. -/
structure BatchPublisher (σ α τ ℓ : Type) where
  step : σ → α → Option σ
  initial : σ
  loop : BatchLoop τ
  phase : σ → Phase τ
  tick : α → Tick τ
  calls : σ → List Call
  printed : σ → List ℓ
  figures : τ × τ → ℓ
  initial_phase : phase initial = .outer loop.rounds
  initial_calls : calls initial = []
  initial_printed : printed initial = []
  step_phase : ∀ {s a t}, step s a = some t → loop.next (phase s) (tick a) = some (phase t)
  step_effects : ∀ {s a t}, step s a = some t →
    Effects figures (phase s) (phase t) (calls s) (calls t) (printed s) (printed t) (tick a)
  enabled : ∀ s, phase s ≠ .stopped → phase s ≠ .aborted → ∀ now,
    ∃ a, (∀ time, (tick a).time = some time → time = now) ∧ (step s a).isSome

namespace BatchPublisher

variable {σ α τ ℓ : Type} (p : BatchPublisher σ α τ ℓ)

/-- The clock readings of the batches that were reported. -/
def batches (acts : List α) : List (τ × τ) := spans (acts.map p.tick)

/-- Reporting does a run no harm: no report aborts it, it goes on whatever the
clock reads until all rows are written and committed, and every batch has an
accurate figure. -/
structure Reported (accurate : τ × τ → ℓ → Prop) (acts : List α) (s : σ) : Prop where
  noAbort : p.phase s ≠ .aborted
  goesOn : p.phase s ≠ .stopped → ∀ now,
    ∃ a, (∀ time, (p.tick a).time = some time → time = now) ∧ (p.step s a).isSome
  bounded : acts.length ≤ p.loop.rounds * (p.loop.rows + 3) + 1
  finished : p.phase s = .stopped →
    (p.calls s).count .endRow = p.loop.rounds * p.loop.rows ∧
      (p.printed s).length = p.loop.rounds ∧
      (0 < p.loop.rounds → (p.calls s).getLast? = some .commit)
  accurate : List.Forall₂ accurate (p.batches acts) (p.printed s)

variable {p}

theorem exec_loop {acts : List α} {s : σ} (ran : exec p.step p.initial acts = some s) :
    exec p.loop.next (.outer p.loop.rounds) (acts.map p.tick) = some (p.phase s) := by
  rw [← p.initial_phase]
  exact exec_project p.phase p.tick (fun _ _ _ move => p.step_phase move) ran

/-- What was called and printed in a run; the last call after the last batch is
the commit. -/
structure Written (p : BatchPublisher σ α τ ℓ) (acts : List α) (s : σ) : Prop where
  rows : (p.calls s).count .endRow = rowTicks (acts.map p.tick)
  committed : 0 < p.loop.rounds → (p.phase s).afterLast → (p.calls s).getLast? = some .commit
  printed : p.phase s ≠ .aborted → p.printed s = (p.batches acts).map p.figures

/-- A step that reports nothing. -/
theorem Written.quiet {acts : List α} {s t : σ} {a : α} (written : Written p acts s)
    (running : p.phase s ≠ .aborted) (notReport : ∀ time, p.tick a ≠ .report time)
    (rows : (p.calls t).count .endRow = (p.calls s).count .endRow + if (p.tick a).isRow then 1 else 0)
    (committed : 0 < p.loop.rounds → (p.phase t).afterLast → (p.calls t).getLast? = some .commit)
    (printed : p.printed t = p.printed s) : Written p (acts ++ [a]) t := by
  refine ⟨?_, committed, fun _ => ?_⟩
  · rw [List.map_append, List.map_singleton, rowTicks_append_singleton, ← written.rows, rows]
  · rw [batches, List.map_append, List.map_singleton, spans_quiet _ notReport, printed,
      written.printed running, batches]

theorem written_step {acts : List α} {s t : σ} {a : α}
    (ran : exec p.step p.initial acts = some s) (written : Written p acts s)
    (move : p.step s a = some t) : Written p (acts ++ [a]) t := by
  have reached := exec_runs (exec_loop ran)
  have committed := written.committed
  have effects := p.step_effects move
  have forward := p.step_phase move
  have rows : rowTicks ((acts ++ [a]).map p.tick) =
      (p.calls s).count .endRow + if (p.tick a).isRow then 1 else 0 := by
    rw [List.map_append, List.map_singleton, rowTicks_append_singleton, ← written.rows]
  generalize phase : p.phase s = before at reached committed effects forward
  generalize phase' : p.phase t = after at effects forward
  generalize ticked : p.tick a = tick at rows effects forward
  cases next_cases forward with
  | enter left time =>
    obtain ⟨calls, printed⟩ := effects
    refine written.quiet (by simp [phase]) (by simp [ticked]) ?_ ?_ printed
    · rw [calls, ticked]
      rfl
    · simp [phase', Phase.afterLast]
  | leave =>
    obtain ⟨calls, printed⟩ := effects
    refine written.quiet (by simp [phase]) (by simp [ticked]) ?_ ?_ printed
    · rw [calls, ticked]
      rfl
    · intro positive _
      rw [calls]
      exact committed positive rfl
  | row left start i more =>
    obtain ⟨count, printed⟩ := effects
    refine written.quiet (by simp [phase]) (by simp [ticked]) ?_ ?_ printed
    · rw [count, ticked]
      rfl
    · simp [phase', Phase.afterLast]
  | endRows left start i done =>
    obtain ⟨printed, calls⟩ := effects
    have calls := calls left start rfl
    refine written.quiet (by simp [phase]) (by simp [ticked]) ?_ ?_ printed
    · rw [calls, ticked]
      by_cases last : left = 0 <;> simp [last, Tick.isRow]
    · intro _ afterLast
      rw [phase'] at afterLast
      rw [calls]
      cases left with
      | zero => simp
      | succ left => cases afterLast
  | report left start time passes =>
    obtain ⟨calls, printed⟩ := effects
    have runs : p.loop.Runs (acts.map p.tick) (.report left start) :=
      reached.resolve_right fun aborted => by cases aborted.1
    refine ⟨?_, fun positive afterLast => ?_, fun _ => ?_⟩
    · rw [rows, calls]
      rfl
    · rw [calls]
      apply committed positive
      rw [phase'] at afterLast
      cases left with
      | zero => rfl
      | succ left => cases afterLast
    · rw [printed left start rfl (by simp), written.printed (by simp [phase]), batches, batches,
        List.map_append, List.map_singleton, ticked, spans_report runs, List.map_append]
      rfl
  | abort left start time aborts =>
    refine ⟨?_, fun _ afterLast => ?_, fun running => absurd phase' running⟩
    · rw [rows, effects.1]
      rfl
    · rw [phase'] at afterLast
      cases afterLast

theorem exec_written {acts : List α} {s : σ} (ran : exec p.step p.initial acts = some s) :
    Written p acts s := by
  refine exec_invariant_of_run (Written p) ?_ ?_ ran
  · refine ⟨?_, ?_, fun _ => ?_⟩
    · rw [p.initial_calls]
      rfl
    · intro positive afterLast
      rw [p.initial_phase] at afterLast
      cases rounds : p.loop.rounds with
      | zero => omega
      | succ left =>
        rw [rounds] at afterLast
        cases afterLast
    · rw [p.initial_printed]
      rfl
  · intro _ _ _ _ ran written move
    exact written_step ran written move

/-- No report aborts a run exactly when none of its batches does. -/
theorem noAbort_iff {acts : List α} {s : σ} (ran : exec p.step p.initial acts = some s) :
    p.phase s ≠ .aborted ↔ ∀ batch ∈ p.batches acts, p.loop.aborts batch.1 batch.2 = false := by
  rcases exec_runs (exec_loop ran) with runs | ⟨aborted, before, batch, reported, aborts⟩
  · exact iff_of_true runs.running runs.passed
  · refine iff_of_false (absurd aborted) fun passes => ?_
    rw [passes batch (by simp [batches, reported])] at aborts
    cases aborts

/-- A run is reported as it should be exactly when no batch aborts it and the
figures of all are accurate. -/
theorem reported_iff {accurate : τ × τ → ℓ → Prop} {acts : List α} {s : σ}
    (ran : exec p.step p.initial acts = some s) :
    p.Reported accurate acts s ↔ ∀ batch ∈ p.batches acts,
      p.loop.aborts batch.1 batch.2 = false ∧ accurate batch (p.figures batch) := by
  have written := exec_written ran
  have accurate_iff (noAbort : p.phase s ≠ .aborted) :
      List.Forall₂ accurate (p.batches acts) (p.printed s) ↔
        ∀ batch ∈ p.batches acts, accurate batch (p.figures batch) := by
    rw [written.printed noAbort, List.forall₂_map_right_iff, List.forall₂_same]
  rw [forall₂_and, ← noAbort_iff ran]
  constructor
  · intro reported
    exact ⟨reported.noAbort, (accurate_iff reported.noAbort).mp reported.accurate⟩
  · rintro ⟨noAbort, figures⟩
    have runs := (exec_runs (exec_loop ran)).resolve_right fun aborted => noAbort aborted.1
    refine ⟨noAbort, fun notStopped now => p.enabled s notStopped noAbort now, ?_, ?_,
      (accurate_iff noAbort).mpr figures⟩
    · have total := runs.steps
      rw [List.length_map] at total
      omega
    · intro stopped
      have rows := runs.rows
      have counted := runs.batches
      have committed := written.committed
      rw [stopped] at rows counted committed
      refine ⟨?_, ?_, fun positive => committed positive rfl⟩
      · rw [written.rows]
        exact rows
      · rw [written.printed noAbort, List.length_map]
        exact counted

end BatchPublisher

end StreamingPoc.Esp
