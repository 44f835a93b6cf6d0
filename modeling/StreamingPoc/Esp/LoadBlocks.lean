import StreamingPoc.Esp.LoadData

/-!
# Transactions of dbagPublisher::loadData

`inblock` is set by the first `start_transaction` and never reset, so with a
block size there is one transaction, and it is open when `loadData` commits.
-/
namespace StreamingPoc.Esp.LoadData

open StreamingPoc.Lib

/-- The session after the calls made so far. -/
def Load.session (o : Options) (s : Load) : Session := Esp.session o.buffered s.calls

/-- Any buffer size but 0 is positive as a `uint32_t`. -/
theorem buffered_iff (o : Options) : o.buffered = true ↔ o.bufferSize ≠ 0 := by
  unfold Options.buffered Options.queueSize
  rw [decide_eq_true_iff, UInt32.pos_iff_ne_zero]
  split
  · rename_i size
    exact ⟨fun _ => size, fun _ zero => size (congrArg UInt32.toInt32 zero)⟩
  · rename_i size
    exact ⟨fun nonzero => absurd rfl nonzero, fun nonzero => absurd nonzero size⟩

/-- At the commit: each start is followed by its end, nothing was published while
a transaction was open, none holds more rows than `block_size` allows, and
without blocks every row was published or queued once and in order. -/
structure TransactionsClosed (o : Options) (s : Load) : Prop where
  matched : ∃ k, blockCalls s.calls = turns (2 * k)
  noPublishInside : ∀ pre post, s.calls = pre ++ .publish :: post →
    (Esp.session o.buffered pre).block = none
  atMost : 0 < o.blockSize → ∀ pre, pre <+: s.calls →
    ((Esp.session o.buffered pre).openRows.length : Int) ≤ o.blockSize.toInt
  handed : o.blockSize = 0 → (s.session o).handed = (s.session o).ended

structure LoadInv (o : Options) (s : Load) : Prop where
  starts : blockCalls s.calls = if s.inblock then [.startTransaction] else []
  used : s.inblock → o.blockSize ≠ 0 ∧ 0 < o.numRows
  opened : ∀ lcount start n, s.pc = .forTest lcount start (n + 1) → o.blockSize ≠ 0 → s.inblock
  sent : o.bufferSize = 0 → (s.session o).held = []

theorem blockCalls_rowCalls (o : Options) (tvNsec : Int64) (s : Load) :
    blockCalls (s.rowCalls o tvNsec) =
      if o.blockSize ≠ 0 ∧ ¬ s.inblock then [.startTransaction] else [] := by
  unfold Load.rowCalls
  rw [blockCalls_append, blockCalls_append]
  have written : blockCalls (s.fill tvNsec).csrec.writeCalls = [] := rfl
  have published : blockCalls (if o.bufferSize = 0 then [.publish] else []) = [] := by
    split <;> rfl
  rw [written, published, List.append_nil, List.append_nil]
  split <;> rfl

theorem loadInv_row {o : Options} {s t : Load} (inv : LoadInv o s) (tvNsec : Int64)
    (more : 0 < o.numRows) (flag : t.inblock = (s.inblock || o.blockSize ≠ 0))
    (calls : t.calls = s.calls ++ s.rowCalls o tvNsec) : LoadInv o t := by
  refine ⟨?_, ?_, ?_, ?_⟩
  · rw [calls, blockCalls_append, inv.starts, blockCalls_rowCalls, flag]
    cases s.inblock <;> by_cases blocks : o.blockSize = 0 <;> simp [blocks]
  · intro inblock
    rw [flag, Bool.or_eq_true, decide_eq_true_iff] at inblock
    exact ⟨inblock.elim (fun before => (inv.used before).1) id, more⟩
  · intro _ _ _ _ blocks
    rw [flag, Bool.or_eq_true, decide_eq_true_iff]
    exact .inr blocks
  · intro direct
    have unbuffered : o.buffered = false := by
      rw [← Bool.not_eq_true, buffered_iff]
      exact fun buffer => buffer direct
    rw [Load.session, calls, Load.rowCalls, if_pos direct, ← List.append_assoc, ← List.append_assoc,
      session_append, unbuffered]
    rfl

theorem loadInv_step {o : Options} {s t : Load} (inv : LoadInv o s) (moves : Moves o s t) :
    LoadInv o t := by
  cases moves with
  | row tvNsec more flag calls => exact loadInv_row inv tvNsec more flag calls
  | enter lcount start pc' flag calls =>
    refine ⟨?_, ?_, fun l st n at_n => ?_, ?_⟩
    · rw [calls, flag]
      exact inv.starts
    · rw [flag]
      exact inv.used
    · rw [pc'] at at_n
      cases at_n
    · rw [Load.session, calls]
      exact inv.sent
  | quiet pc' flag calls =>
    refine ⟨?_, ?_, fun l st n at_n => absurd at_n (pc' l st _), ?_⟩
    · rw [flag, ← inv.starts]
      rcases calls with same | commit
      · rw [same]
      · rw [commit, blockCalls_snoc]
        exact List.append_nil _
    · rw [flag]
      exact inv.used
    · rcases calls with same | commit
      · rw [Load.session, same]
        exact inv.sent
      · rw [Load.session, commit, session_append]
        exact inv.sent

theorem loadInv_initial (o : Options) : LoadInv o (.initial o) := by
  refine ⟨rfl, ?_, ?_, fun _ => rfl⟩
  · intro inblock
    cases inblock
  · intro lcount start n at_n
    cases at_n

theorem reachable_loadInv {o : Options} {rc : Nat → Int32} (succeed : ∀ n, rc n = 0) {s : Load}
    (reach : Reachable (step o rc) (.initial o) s) : LoadInv o s :=
  reach.invariant (LoadInv o) (loadInv_initial o) fun _ _ _ inv move =>
    loadInv_step inv (step_cases succeed move)

/-- Without a transaction every row is published or queued. -/
theorem transactionsClosed_of_none {o : Options} {s : Load} (inv : LoadInv o s)
    (noStart : blockCalls s.calls = []) : TransactionsClosed o s := by
  have noBlock : ∀ pre, pre <+: s.calls → (Esp.session o.buffered pre).block = none := by
    rintro pre ⟨post, split⟩
    rw [← split, blockCalls_append, List.append_eq_nil_iff] at noStart
    exact block_of_no_blockCalls o.buffered noStart.1
  refine ⟨⟨0, noStart⟩, ?_, ?_, fun _ => ?_⟩
  · intro pre post split
    exact noBlock pre ⟨_, split.symm⟩
  · intro blocks pre before
    rw [Session.openRows, noBlock pre before]
    have positive := Int32.lt_iff_toInt_lt.mp blocks
    simpa using Int.le_of_lt positive
  · have conserved : (s.session o).Conserved o.buffered := session_conserved o.buffered s.calls
    have noneHeld : (s.session o).held = [] := by
      by_cases direct : o.bufferSize = 0
      · exact inv.sent direct
      · exact conserved.queued ((buffered_iff o).mpr direct)
    have noneOpen : (s.session o).openRows = [] := by
      rw [Session.openRows, Load.session, noBlock s.calls (List.prefix_refl _)]
      rfl
    have rows := conserved.rows
    rwa [noneHeld, noneOpen, List.append_nil, List.append_nil] at rows

/-- At the commit the transactions are closed exactly when there is none. -/
theorem transactions_closed_iff {o : Options} {rc : Nat → Int32} (succeed : ∀ n, rc n = 0)
    {s : Load} (reach : Reachable (step o rc) (.initial o) s) (atCommit : AtCommit o s) :
    TransactionsClosed o s ↔ o.blockSize = 0 ∨ o.numRows = 0 := by
  obtain ⟨start, n, pc, done⟩ := atCommit
  have inv := reachable_loadInv succeed reach
  constructor
  · intro closed
    by_contra blocks
    rw [not_or] at blocks
    obtain ⟨m, rfl⟩ : ∃ m, n = m + 1 := ⟨n - 1, by omega⟩
    have inblock := inv.opened 0 start m pc blocks.1
    obtain ⟨k, matched⟩ := closed.matched
    rw [inv.starts, if_pos inblock] at matched
    have lengths := congrArg List.length matched
    simp only [turns, List.length_singleton, List.length_map, List.length_range] at lengths
    omega
  · intro noBlocks
    apply transactionsClosed_of_none inv
    have flag : ¬ s.inblock := by
      intro inblock
      obtain ⟨blocks, someRows⟩ := inv.used inblock
      rcases noBlocks with noBlockSize | noRows
      · exact blocks noBlockSize
      · omega
    rw [inv.starts, if_neg flag]

/-- Two rows without blocks. -/
def sampleOptions : Options := { blockSize := 0, bufferSize := 0, lcount := 1, numRows := 2 }

def twoRows : List Act := [.enter { tvSec := 0, tvUsec := 0 }, .row 10, .row 20]

theorem transactions_closed_iff_two_rows :
    ∃ s, exec (step sampleOptions fun _ => 0) (.initial sampleOptions) twoRows = some s ∧
      TransactionsClosed sampleOptions s := by
  have ran : (exec (step sampleOptions fun _ => 0) (.initial sampleOptions) twoRows).map Load.pc =
      some (.forTest 0 { tvSec := 0, tvUsec := 0 } 2) := by decide +kernel
  obtain ⟨s, run, pc⟩ := Option.map_eq_some_iff.mp ran
  have atCommit : AtCommit sampleOptions s := ⟨_, 2, pc, by decide⟩
  refine ⟨s, run, ?_⟩
  exact (transactions_closed_iff (fun _ => rfl) (.of_exec twoRows .start run) atCommit).mpr (.inl rfl)

/-- Two rows with a block size of 1: one transaction, still open at the commit. -/
theorem transaction_left_open :
    ¬ ∀ (o : Options) (rc : Nat → Int32) (s : Load), (∀ n, rc n = 0) →
      Reachable (step o rc) (.initial o) s → AtCommit o s → TransactionsClosed o s := by
  intro claim
  let o : Options := { blockSize := 1, bufferSize := 0, lcount := 1, numRows := 2 }
  have ran : (exec (step o fun _ => 0) (.initial o) twoRows).map
      (fun s => (s.pc, blockCalls s.calls)) =
        some (.forTest 0 { tvSec := 0, tvUsec := 0 } 2, [.startTransaction]) := by decide +kernel
  obtain ⟨s, run, left⟩ := Option.map_eq_some_iff.mp ran
  obtain ⟨pc, starts⟩ := Prod.mk.inj left
  have closed := claim o (fun _ => 0) s (fun _ => rfl) (.of_exec _ .start run)
    ⟨_, 2, pc, by decide⟩
  obtain ⟨k, matched⟩ := closed.matched
  rw [starts] at matched
  have lengths := congrArg List.length matched
  simp only [turns, List.length_singleton, List.length_map, List.length_range] at lengths
  omega

end StreamingPoc.Esp.LoadData
