import StreamingPoc.Lib.Transition

/-!
# Work that runs out

A measure that each working step lowers, and that no other allowed step raises,
bounds the working steps of every run. Where some working step is enabled as long
as work is left, every run can be continued until none is.
-/
namespace StreamingPoc.Lib

variable {σ α : Type}

/-- `work` is what is left to do in a state: an allowed step keeps the invariant and
pays for itself if it is a working one. -/
structure WorkLeft (step : σ → α → Option σ) (inv : σ → Prop) (allowed : α → Prop)
    (works : α → Bool) (work : σ → Nat) : Prop where
  keeps : ∀ {s a t}, inv s → allowed a → step s a = some t → inv t
  pays : ∀ {s a t}, inv s → allowed a → step s a = some t →
    work t + (if works a then 1 else 0) ≤ work s

namespace WorkLeft

variable {step : σ → α → Option σ} {inv : σ → Prop} {allowed : α → Prop} {works : α → Bool}
  {work : σ → Nat}

/-- The working steps of a run are paid from the work that was left at its start. -/
theorem exec_pays (left : WorkLeft step inv allowed works work) {acts : List α} {s t : σ}
    (holds : inv s) (all : ∀ a ∈ acts, allowed a) (ran : exec step s acts = some t) :
    work t + acts.countP works ≤ work s ∧ inv t := by
  induction acts generalizing s with
  | nil =>
    cases ran
    exact ⟨Nat.le_refl _, holds⟩
  | cons a rest ih =>
    obtain ⟨u, move, later⟩ := Option.bind_eq_some_iff.mp ran
    have first := all a List.mem_cons_self
    have paid := left.pays holds first move
    obtain ⟨paid_later, holds_later⟩ := ih (left.keeps holds first move)
      (fun b member => all b (List.mem_cons_of_mem a member)) later
    refine ⟨?_, holds_later⟩
    rw [List.countP_cons]
    omega

/-- Some run of working steps ends where none is enabled. -/
theorem exists_settled (left : WorkLeft step inv allowed works work) (s : σ) (holds : inv s) :
    ∃ acts t, (∀ a ∈ acts, allowed a ∧ works a) ∧ exec step s acts = some t ∧
      ∀ a, allowed a → works a → step t a = none := by
  induction measured : work s using Nat.strongRecOn generalizing s with
  | ind n ih =>
    by_cases settled : ∀ a, allowed a → works a → step s a = none
    · exact ⟨[], s, by simp, rfl, settled⟩
    · push Not at settled
      obtain ⟨a, allowed_a, works_a, enabled⟩ := settled
      obtain ⟨u, move⟩ := Option.ne_none_iff_exists'.mp enabled
      have paid := left.pays holds allowed_a move
      rw [if_pos works_a, measured] at paid
      obtain ⟨acts, t, all, ran, settled⟩ := ih (work u) (by omega) u (left.keeps holds allowed_a move) rfl
      refine ⟨a :: acts, t, ?_, ?_, settled⟩
      · rintro b member
        rcases List.mem_cons.mp member with rfl | later
        · exact ⟨allowed_a, works_a⟩
        · exact all b later
      · rw [exec, move]
        exact ran

end WorkLeft

end StreamingPoc.Lib
