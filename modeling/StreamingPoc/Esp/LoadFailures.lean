import StreamingPoc.Esp.LoadBlocks
import StreamingPoc.Lib.FailStop

/-!
# dbagPublisher::loadData when SDK calls fail

After each call the code tests the return code and leaves through
`print_error_and_exit` (dbag_publisher.cpp:151-224). Whichever call fails and
wherever in the loops, what was done is what the run without failures does up to
this call.
-/
namespace StreamingPoc.Esp.LoadData

open StreamingPoc.Lib

theorem issue_passes {rc : Nat → Int32} {done calls : List Call}
    (succeed : ∀ n, done.length ≤ n → n < (done ++ calls).length → rc n = 0) :
    issue rc done calls = .ok (done ++ calls) := by
  induction calls generalizing done with
  | nil => simp [issue]
  | cons call calls ih =>
    have first : rc done.length = 0 := succeed _ (Nat.le_refl _) (by simp)
    rw [issue, if_neg (by simp [first]), ih]
    · simp
    · intro n after below
      rw [List.length_append, List.length_singleton] at after
      exact succeed n (by omega) (by simpa using below)

theorem issue_stops {rc : Nat → Int32} {done calls : List Call} {n : Nat} (after : done.length ≤ n)
    (below : n < (done ++ calls).length) (fails : rc n ≠ 0)
    (first : ∀ m, done.length ≤ m → m < n → rc m = 0) :
    issue rc done calls = .error ((done ++ calls).take (n + 1)) := by
  induction calls generalizing done with
  | nil =>
    rw [List.append_nil] at below
    omega
  | cons call calls ih =>
    rw [issue]
    by_cases here : n = done.length
    · subst here
      rw [if_pos fails]
      simp [List.take_append]
    · have passed : rc done.length = 0 := first _ (Nat.le_refl _) (by omega)
      rw [if_neg (by simp [passed]), ih]
      · simp
      · rw [List.length_append, List.length_singleton]
        omega
      · simpa using below
      · intro m after' below'
        rw [List.length_append, List.length_singleton] at after'
        exact first m (by omega) below'

/-- A step makes its calls in turn, and the first one that fails ends the program. -/
theorem step_issue {o : Options} {s t : Load} {act : Act} (move : step o (fun _ => 0) s act = some t) :
    ∃ calls, t.calls = s.calls ++ calls ∧
      (∀ rc, issue rc s.calls calls = .ok (s.calls ++ calls) → step o rc s act = some t) ∧
      ∀ rc made, issue rc s.calls calls = .error made →
        step o rc s act = some { s with pc := .errorExit, calls := made } := by
  cases step_from move with
  | enter lcount start pc =>
    exact ⟨[], by simp, fun rc _ => by simp [step, pc], fun rc made failed => by cases failed⟩
  | leave pc => exact ⟨[], by simp, fun rc _ => by simp [step, pc], fun rc made failed => by cases failed⟩
  | row lcount start n tvNsec pc more =>
    refine ⟨s.rowCalls o tvNsec, ?_, ?_, ?_⟩
    · rw [row_eq, issue_succeeds fun _ => rfl]
      rfl
    · intro rc passed
      rw [row_eq, issue_succeeds fun _ => rfl]
      simp [step, pc, more, row_eq, passed]
    · intro rc made failed
      simp [step, pc, more, row_eq, failed, Except.map, Load.continue]
  | endRows lcount start n pc done =>
    refine ⟨if lcount = 0 then [.commit] else [], ?_, ?_, ?_⟩
    · rw [issue_succeeds fun _ => rfl]
      rfl
    · intro rc passed
      rw [issue_succeeds fun _ => rfl]
      simp [step, pc, done, passed]
    · intro rc made failed
      simp [step, pc, done, failed, Except.map, Load.continue]
  | abort lcount start endTime pc zero =>
    exact ⟨[], by simp, fun rc _ => by simp [step, pc, zero], fun rc made failed => by cases failed⟩
  | report lcount start endTime pc nonzero =>
    exact ⟨[], by simp, fun rc _ => by simp [step, pc, nonzero], fun rc made failed => by cases failed⟩

theorem failStop (o : Options) (rc : Nat → Int32) :
    FailStop (step o fun _ => 0) (step o rc) Load.calls (fun s => s.pc = .errorExit) (fun n => rc n ≠ 0) where
  grows move := by
    obtain ⟨calls, grown, -⟩ := step_issue move
    exact ⟨calls, grown.symm⟩
  passes move none_fails := by
    obtain ⟨calls, grown, passes, -⟩ := step_issue move
    rw [grown] at none_fails
    exact passes rc (issue_passes fun n after below => Classical.not_not.mp (none_fails n after below))
  stops move after below fails first := by
    obtain ⟨calls, grown, -, stops⟩ := step_issue move
    rw [grown] at below ⊢
    exact ⟨_, stops rc _ (issue_stops after below fails fun m after below =>
      Classical.not_not.mp (first m after below)), rfl, rfl⟩

/-- Take any run in which no SDK call fails. If call `n` of it is made to fail,
the first to do so, then the same program comes as far as this call, and no
further: its calls are the first `n + 1` ones, it is at the exit for good, and
the rows at the server are the first ones of the run. If none of the calls of
the run fails, it is the same run. -/
theorem stops_at_failure {o : Options} {acts : List Act} {t : Load}
    (ran : exec (step o fun _ => 0) (.initial o) acts = some t) (rc : Nat → Int32) :
    ((∀ n < t.calls.length, rc n = 0) → exec (step o rc) (.initial o) acts = some t) ∧
      ∀ n < t.calls.length, rc n ≠ 0 → (∀ m < n, rc m = 0) →
        ∃ acts' s, acts' <+: acts ∧ exec (step o rc) (.initial o) acts' = some s ∧ s.pc = .errorExit ∧
          (∀ act, step o rc s act = none) ∧ s.calls = t.calls.take (n + 1) ∧
          (s.session o).handed <+: (t.session o).handed := by
  constructor
  · intro succeed
    exact (failStop o rc).exec_passes ran fun n below fails => fails (succeed n below)
  · intro n made fails first
    obtain ⟨acts', s, begins, ran', stopped, cut⟩ := (failStop o rc).exec_stops ran (Nat.zero_le n) made fails
      fun m below fails' => fails' (first m below)
    refine ⟨acts', s, begins, ran', stopped, ?_, cut, ?_⟩
    · intro act
      cases act <;> simp [step, stopped]
    · rw [Load.session, cut]
      exact handed_prefix_session o.buffered (List.take_prefix _ _)

/-- Two rows; the call that ends the second one fails. -/
theorem stops_at_failure_second_row :
    ∃ acts s, acts <+: twoRows ∧
      exec (step sampleOptions fun n => if n = 16 then 1 else 0) (.initial sampleOptions) acts = some s ∧
      s.pc = .errorExit ∧ s.calls.length = 17 := by
  have ran : (exec (step sampleOptions fun _ => 0) (.initial sampleOptions) twoRows).map
      (fun s => s.calls.length) = some 18 := by decide +kernel
  obtain ⟨t, run, calls⟩ := Option.map_eq_some_iff.mp ran
  have below : 16 < t.calls.length := by omega
  obtain ⟨acts, s, begins, ran', stopped, -, cut, -⟩ :=
    (stops_at_failure run fun n => if n = 16 then 1 else 0).2 16 below (by decide) fun m before => if_neg (by omega)
  refine ⟨acts, s, begins, ran', stopped, ?_⟩
  rw [cut, List.length_take]
  omega

end StreamingPoc.Esp.LoadData
