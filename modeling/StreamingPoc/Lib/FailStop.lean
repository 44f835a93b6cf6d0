import StreamingPoc.Lib.Transition
import Mathlib.Data.List.TakeDrop

/-!
# Programs that stop at the first call that fails

`ok` is the program when no call fails, `step` the same program when the calls
numbered by `fails` do. Where one step of `step` is the step of `ok`, cut behind
the first call of it that fails, a whole run is the run of `ok`, cut there.
-/
namespace StreamingPoc.Lib

variable {σ α γ : Type}

structure FailStop (ok step : σ → α → Option σ) (calls : σ → List γ) (halted : σ → Prop)
    (fails : Nat → Prop) : Prop where
  grows : ∀ {s a t}, ok s a = some t → calls s <+: calls t
  passes : ∀ {s a t}, ok s a = some t →
    (∀ n, (calls s).length ≤ n → n < (calls t).length → ¬ fails n) → step s a = some t
  stops : ∀ {s a t} {n : Nat}, ok s a = some t → (calls s).length ≤ n → n < (calls t).length → fails n →
    (∀ m, (calls s).length ≤ m → m < n → ¬ fails m) →
      ∃ u, step s a = some u ∧ halted u ∧ calls u = (calls t).take (n + 1)

namespace FailStop

variable {ok step : σ → α → Option σ} {calls : σ → List γ} {halted : σ → Prop} {fails : Nat → Prop}
  (failStop : FailStop ok step calls halted fails) {init t : σ} {acts : List α}

include failStop

theorem exec_passes (ran : exec ok init acts = some t) (none_fails : ∀ n < (calls t).length, ¬ fails n) :
    exec step init acts = some t := by
  induction acts using List.reverseRecOn generalizing t with
  | nil => exact ran
  | append_singleton acts a ih =>
    rw [exec_append, Option.bind_eq_some_iff] at ran ⊢
    obtain ⟨s, before, last⟩ := ran
    have move : ok s a = some t := by simpa [exec] using last
    have shorter := (failStop.grows move).length_le
    refine ⟨s, ih before fun n below => none_fails n (by omega), ?_⟩
    simpa [exec] using failStop.passes move fun n _ below => none_fails n below

/-- A run comes as far as the step of its first failing call. -/
theorem exec_stops (ran : exec ok init acts = some t) {n : Nat} (from_start : (calls init).length ≤ n)
    (made : n < (calls t).length) (fail : fails n) (first : ∀ m < n, ¬ fails m) :
    ∃ acts' u, acts' <+: acts ∧ exec step init acts' = some u ∧ halted u ∧
      calls u = (calls t).take (n + 1) := by
  induction acts using List.reverseRecOn generalizing t with
  | nil =>
    cases ran
    omega
  | append_singleton acts a ih =>
    rw [exec_append, Option.bind_eq_some_iff] at ran
    obtain ⟨s, before, last⟩ := ran
    have move : ok s a = some t := by simpa [exec] using last
    by_cases earlier : n < (calls s).length
    · obtain ⟨acts', u, begins, ran', stopped, cut⟩ := ih before earlier
      refine ⟨acts', u, begins.trans (List.prefix_append _ _), ran', stopped, ?_⟩
      obtain ⟨more, grown⟩ := failStop.grows move
      rw [cut, ← grown, List.take_append_of_le_length earlier]
    · obtain ⟨u, failing, stopped, cut⟩ := failStop.stops move (Nat.le_of_not_lt earlier) made fail
        fun m _ below => first m below
      refine ⟨acts ++ [a], u, List.prefix_refl _, ?_, stopped, cut⟩
      rw [exec_append, failStop.exec_passes before fun m below => first m (by omega)]
      simpa [exec] using failing

end FailStop

end StreamingPoc.Lib
