import Mathlib.Data.List.Basic

/-!
# Traces of calls

A component sees a trace of calls and has a state after each: `next s call`.
`Guarded` says that every call of a trace is allowed in the state the calls
before it leave. Traces grow at their end, so a run keeps `Guarded` when the
calls of each step are guarded.
-/
namespace StreamingPoc.Lib

variable {σ γ : Type} (next : σ → γ → σ) (guard : σ → γ → Prop)

def Guarded : σ → List γ → Prop
  | _, [] => True
  | s, call :: calls => guard s call ∧ Guarded (next s call) calls

theorem guarded_append (s : σ) (xs ys : List γ) :
    Guarded next guard s (xs ++ ys) ↔
      Guarded next guard s xs ∧ Guarded next guard (xs.foldl next s) ys := by
  induction xs generalizing s with
  | nil => simp [Guarded]
  | cons call xs ih => simp only [List.cons_append, Guarded, List.foldl_cons, ih, and_assoc]

/-- Every call of a guarded trace meets its guard after the calls before it. -/
theorem Guarded.call {s : σ} {pre post : List γ} {call : γ}
    (guarded : Guarded next guard s (pre ++ call :: post)) : guard (pre.foldl next s) call := by
  rw [guarded_append] at guarded
  exact guarded.2.1

end StreamingPoc.Lib
