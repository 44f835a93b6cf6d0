import Mathlib.Data.List.Induction
import Mathlib.Logic.Relation

/-!
# Runs of a partial step function

A system is a step function `step : σ → α → Option σ`; an action that is not
enabled gives `none`. `Reachable` is the set of states of all runs, `Run` one
finite run indexed by time, for properties of intervals of a run. Nothing here
depends on what the states or the actions are.
-/
namespace StreamingPoc.Lib

variable {σ α τ : Type}

/-- The states of all runs that begin in `init`. -/
inductive Reachable (step : σ → α → Option σ) (init : σ) : σ → Prop where
  | start : Reachable step init init
  | next {s t : σ} (a : α) (before : Reachable step init s) (move : step s a = some t) :
      Reachable step init t

/-- An inductive invariant holds in every reachable state. -/
theorem Reachable.invariant {step : σ → α → Option σ} {init s : σ} (P : σ → Prop)
    (start : P init) (keep : ∀ s a t, P s → step s a = some t → P t)
    (reach : Reachable step init s) : P s := by
  induction reach with
  | start => exact start
  | next a before move ih => exact keep _ a _ ih move

/-- Forward simulation: each step is matched by at most one step of the
abstract relation, hence each reachable state by an abstract run. -/
theorem Reachable.simulation {step : σ → α → Option σ} {init s : σ}
    (absStep : τ → τ → Prop) (R : σ → τ → Prop) {absInit : τ} (start : R init absInit)
    (sim : ∀ s a s' t, R s t → step s a = some s' →
      ∃ t', Relation.ReflGen absStep t t' ∧ R s' t')
    (reach : Reachable step init s) :
    ∃ t, Relation.ReflTransGen absStep absInit t ∧ R s t := by
  induction reach with
  | start => exact ⟨absInit, .refl, start⟩
  | next a before move ih =>
    obtain ⟨t, steps, related⟩ := ih
    obtain ⟨t', stepAbs, related'⟩ := sim _ a _ t related move
    exact ⟨t', steps.trans stepAbs.to_reflTransGen, related'⟩

/-- The state after a list of actions, if all of them are enabled in turn. -/
def exec (step : σ → α → Option σ) : σ → List α → Option σ
  | s, [] => some s
  | s, a :: rest => (step s a).bind fun t => exec step t rest

theorem exec_append (step : σ → α → Option σ) (s : σ) (xs ys : List α) :
    exec step s (xs ++ ys) = (exec step s xs).bind fun t => exec step t ys := by
  induction xs generalizing s with
  | nil => rfl
  | cons a xs ih =>
    rw [List.cons_append, exec, exec, Option.bind_assoc]
    congr 1
    funext t
    exact ih t

/-- What holds at the start and is kept by one more action of a run, holds of
every run. -/
theorem exec_invariant_of_run {step : σ → α → Option σ} {init : σ} (P : List α → σ → Prop)
    (start : P [] init)
    (keep : ∀ acts s a t, exec step init acts = some s → P acts s → step s a = some t →
      P (acts ++ [a]) t)
    {acts : List α} {s : σ} (ran : exec step init acts = some s) : P acts s := by
  induction acts using List.reverseRecOn generalizing s with
  | nil =>
    cases ran
    exact start
  | append_singleton acts a ih =>
    rw [exec_append, Option.bind_eq_some_iff] at ran
    obtain ⟨u, before, last⟩ := ran
    have move : step u a = some s := by simpa [exec] using last
    exact keep acts u a s before (ih before) move

/-- What holds at the start and is kept by one more action, holds of every list
of actions and the state it leads to. -/
theorem exec_invariant {step : σ → α → Option σ} {init : σ} (P : List α → σ → Prop)
    (start : P [] init)
    (keep : ∀ acts s a t, P acts s → step s a = some t → P (acts ++ [a]) t)
    {acts : List α} {s : σ} (ran : exec step init acts = some s) : P acts s :=
  exec_invariant_of_run P start (fun acts s a t _ => keep acts s a t) ran

/-- A run is one of a smaller system, if each step is one of it. -/
theorem exec_project {β : Type} {step : σ → α → Option σ} {step' : τ → β → Option τ} (f : σ → τ)
    (g : α → β) (sim : ∀ s a t, step s a = some t → step' (f s) (g a) = some (f t)) {s t : σ}
    {acts : List α} (ran : exec step s acts = some t) :
    exec step' (f s) (acts.map g) = some (f t) := by
  induction acts generalizing s with
  | nil =>
    cases ran
    rfl
  | cons a rest ih =>
    obtain ⟨u, move, later⟩ := Option.bind_eq_some_iff.mp ran
    rw [List.map_cons, exec, sim s a u move]
    exact ih later

theorem Reachable.of_exec {step : σ → α → Option σ} {init s t : σ} (acts : List α)
    (reach : Reachable step init s) (run : exec step s acts = some t) :
    Reachable step init t := by
  induction acts generalizing s with
  | nil =>
    cases run
    exact reach
  | cons a rest ih =>
    obtain ⟨u, move, run⟩ := Option.bind_eq_some_iff.mp run
    exact ih (reach.next a move) run

/-- One finite run: `state k` is the state before action `act k`. What lies
after `length` is not part of the run. -/
structure Run (step : σ → α → Option σ) (init : σ) where
  length : Nat
  state : Nat → σ
  act : Nat → α
  start : state 0 = init
  next : ∀ k < length, step (state k) (act k) = some (state (k + 1))

namespace Run

variable {step : σ → α → Option σ} {init : σ}

/-- The run of a list of actions that are enabled in turn; `a` stands for the
actions after its end. -/
def ofExec {final : σ} (a : α) (acts : List α) (ran : exec step init acts = some final) :
    Run step init where
  length := acts.length
  state k := (exec step init (acts.take k)).getD init
  act k := acts.getD k a
  start := rfl
  next k below := by
    have split := ran
    rw [← List.take_append_drop (k + 1) acts, exec_append, Option.bind_eq_some_iff] at split
    obtain ⟨u, until_next, -⟩ := split
    have last : acts.take (k + 1) = acts.take k ++ [acts[k]] := (List.take_append_getElem below).symm
    rw [until_next]
    rw [last, exec_append, Option.bind_eq_some_iff] at until_next
    obtain ⟨t, until_now, move⟩ := until_next
    have action : acts.getD k a = acts[k] := by
      rw [List.getD_eq_getElem?_getD, List.getElem?_eq_getElem below, Option.getD_some]
    rw [until_now, action]
    simpa [exec] using move

/-- What one step keeps, holds at every moment of the open interval `(p, q)`
once it holds at its first moment. -/
theorem interval_invariant (run : Run step init) {p q : Nat} (within : q ≤ run.length)
    (P : Nat → Prop) (first : p + 1 < q → P (p + 1))
    (keep : ∀ k, p < k → k + 1 < q → step (run.state k) (run.act k) = some (run.state (k + 1)) →
      P k → P (k + 1)) :
    ∀ k, p < k → k < q → P k := by
  intro k after before
  induction k with
  | zero => omega
  | succ k ih =>
    rcases Nat.lt_or_ge p k with later | now
    · exact keep k later before (run.next k (by omega)) (ih later (by omega))
    · obtain rfl : k = p := by omega
      exact first before

end Run

end StreamingPoc.Lib
