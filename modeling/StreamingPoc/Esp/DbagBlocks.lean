import StreamingPoc.Esp.DbagPublisher
import StreamingPoc.Java.Int32

/-!
# Blocks and rows of DbagPublisher.publish

The close test of a block is `i % blockSize == 0` with `i` from 0 in each batch,
while the open block stays open between the batches. Between rows the block
holds the rows since the last index that is a multiple of `blockSize`, or the
leftover of the batch before. All of this is about a publisher that heeds the
calls of blocks.
-/
namespace StreamingPoc.Esp.DbagPublisher

open StreamingPoc.Lib

/-- The session after the calls made so far. -/
def Publish.session (o : Options) (s : Publish) : Session := Esp.session o.buffered s.calls

/-- `blockSize` where it is positive. -/
def Options.limit (o : Options) : Nat := o.blockSize.toInt.toNat

theorem Options.limit_pos {o : Options} (blocks : 0 < o.blockSize) : 0 < o.limit := by
  have positive : 0 < o.blockSize.toInt := Int32.lt_iff_toInt_lt.mp blocks
  unfold limit
  omega

theorem Options.limit_eq {o : Options} (blocks : 0 < o.blockSize) :
    (o.limit : Int) = o.blockSize.toInt := by
  have positive : 0 < o.blockSize.toInt := Int32.lt_iff_toInt_lt.mp blocks
  unfold limit
  omega

theorem border_iff {o : Options} (blocks : 0 < o.blockSize) (i : Nat) :
    (i : Int).tmod o.blockSize.toInt = 0 ↔ i % o.limit = 0 := by
  rw [← Options.limit_eq blocks, ← Int.ofNat_tmod]
  omega

/-- Between rows: no row is being written, the flag is right, the open block is
neither empty nor full, and nothing completed waits for a `publish` that the
options provide for. -/
structure Between (o : Options) (flag : Bool) (t : Session) : Prop where
  row : t.row = none
  flag : flag = t.block.isSome
  noBlocks : ¬ 0 < o.blockSize → t.block = none
  notEmpty : t.block.isSome → t.openRows ≠ []
  notFull : 0 < o.blockSize → t.openRows.length < o.limit
  sent : o.bufferSize = 0 → t.held = []
  unsent : o.bufferSize < 0 → t.handed = []

/-- After row `i` of a batch: the open block holds the rows since the last border. -/
structure After (o : Options) (i : Nat) (t : Session) : Prop where
  written : t.ended ≠ []
  openRows : 0 < o.blockSize → t.openRows.length = i % o.limit

structure RowInv (o : Options) (s : Publish) : Prop where
  between : Between o s.inblock (s.session o)
  after : ∀ lcount start i, s.pc = .forTest lcount start (i + 1) → After o i (s.session o)
  guarded : 0 < o.blockSize →
    Guarded (Session.call o.buffered) (bracketGuard o.limit) .initial s.calls

/-! ## The session after a pass -/

theorem Options.not_buffered {o : Options} (noBuffer : ¬ 0 < o.bufferSize) : o.buffered = false := by
  simpa [Options.buffered] using noBuffer

theorem not_pos_of_neg {n : Int32} (negative : n < 0) : ¬ 0 < n := by
  rw [Int32.lt_iff_toInt_lt] at negative ⊢
  omega

theorem between_outside {o : Options} {t : Session} (row : t.row = none) (noBlock : t.block = none)
    (sent : o.bufferSize = 0 → t.held = []) (unsent : o.bufferSize < 0 → t.handed = []) :
    Between o false t := by
  refine ⟨row, by simp [noBlock], fun _ => noBlock, by simp [noBlock], fun blocks => ?_, sent,
    unsent⟩
  rw [Session.openRows, noBlock]
  exact Options.limit_pos blocks

/-- A row outside a block, or a block, that is completed and sent. -/
theorem between_of_completed {o : Options} {t : Session} (rows : List Row) (row : t.row = none)
    (noBlock : t.block = none) (unsent : o.bufferSize < 0 → t.handed = []) :
    Between o false
        ((sendCalls o.bufferSize).foldl (Session.call o.buffered) (t.complete o.buffered rows)) ∧
      ((sendCalls o.bufferSize).foldl (Session.call o.buffered) (t.complete o.buffered rows)).ended =
        t.ended := by
  rw [Session.foldl_sendCalls]
  by_cases direct : o.bufferSize = 0
  · rw [if_pos direct, Options.not_buffered (by simp [direct])]
    refine ⟨between_outside (by simpa using row) (by simpa using noBlock) (by simp) ?_, by simp⟩
    intro negative
    exact absurd (direct ▸ negative) (by decide)
  · rw [if_neg direct]
    refine ⟨between_outside (by simpa using row) (by simpa using noBlock)
      (fun zero => absurd zero direct) ?_, by simp⟩
    intro negative
    rw [Options.not_buffered (not_pos_of_neg negative)]
    exact unsent negative

/-- The calls of a row inside a block, opened before where none is open. -/
theorem guarded_write {o : Options} {s : Publish} (between : Between o s.inblock (s.session o)) :
    Guarded (Session.call o.buffered) (bracketGuard o.limit) (s.session o)
      (openCalls s.inblock ++ writeCalls s.columns) := by
  rw [guarded_append, Session.foldl_openCalls _ between.flag]
  constructor
  · cases inblock : s.inblock with
    | true => exact trivial
    | false =>
      have noBlock : (s.session o).block = none := by simpa [inblock] using between.flag
      exact ⟨⟨noBlock, between.row⟩, trivial⟩
  · simp [writeCalls, Publish.columns, Guarded, bracketGuard, Session.call, between.row]

theorem add_one_mod_of_ne {j n : Nat} (inside : (j + 1) % n ≠ 0) : (j + 1) % n = j % n + 1 := by
  rcases Nat.eq_zero_or_pos n with rfl | positive
  · simp
  · have below := Nat.mod_lt j positive
    have whole := Nat.mod_add_div j n
    rw [← whole, Nat.add_right_comm, Nat.add_mul_mod_self_left] at inside ⊢
    rw [Nat.add_mul_mod_self_left, Nat.mod_mod]
    rcases Nat.lt_or_ge (j % n + 1) n with less | equal
    · exact Nat.mod_eq_of_lt less
    · obtain full : j % n + 1 = n := by omega
      rw [full, Nat.mod_self] at inside
      exact absurd rfl inside

/-- A row without blocks. -/
theorem pass_single {o : Options} {s t : Publish} (i : Nat) (inv : RowInv o s)
    (noBlocks : ¬ 0 < o.blockSize) (flag : t.inblock = s.inblock)
    (calls : t.calls = s.calls ++ (writeCalls s.columns ++ sendCalls o.bufferSize)) :
    Between o t.inblock (t.session o) ∧ After o i (t.session o) := by
  have outside : (s.session o).block = none := inv.between.noBlocks noBlocks
  have session_t : t.session o = List.foldl _ (s.session o) _ := session_of_grown o.buffered calls
  rw [List.foldl_append, Session.foldl_writeCalls, Session.addRow_outside _ outside] at session_t
  obtain ⟨between, ended⟩ : Between o false (t.session o) ∧
      (t.session o).ended = (s.session o).ended ++ [s.nextRow] := by
    rw [session_t]
    exact between_of_completed [s.nextRow] rfl outside inv.between.unsent
  have closed : t.inblock = false := by rw [flag, inv.between.flag, outside]; rfl
  refine ⟨?_, by simp [ended], fun blocks => absurd blocks noBlocks⟩
  rw [closed]
  exact between

/-- A row that leaves its block open: it is not the first of the batch, so the
block was counted at the row before. -/
theorem pass_stay {o : Options} {s t : Publish} {i : Nat} {lcount : Nat} {start : Int64}
    (inv : RowInv o s) (pc : s.pc = .forTest lcount start i) (blocks : 0 < o.blockSize)
    (inside : i % o.limit ≠ 0) (flag : t.inblock = true)
    (calls : t.calls = s.calls ++ (openCalls s.inblock ++ writeCalls s.columns)) :
    Between o t.inblock (t.session o) ∧ After o i (t.session o) := by
  have session_t : t.session o = List.foldl _ (s.session o) _ := session_of_grown o.buffered calls
  rw [Session.foldl_row_in_block _ _ inv.between.flag] at session_t
  have count : (t.session o).openRows.length = i % o.limit := by
    rcases i with _ | j
    · simp at inside
    · have before := (inv.after lcount start j pc).openRows blocks
      rw [session_t]
      simp only [Session.openRows, Option.getD_some, List.length_append, List.length_singleton]
      rw [← Session.openRows, before]
      exact (add_one_mod_of_ne inside).symm
  have below : i % o.limit < o.limit := Nat.mod_lt _ (Options.limit_pos blocks)
  refine ⟨⟨?_, ?_, fun noBlocks => absurd blocks noBlocks, ?_, fun _ => by omega, ?_, ?_⟩, ?_,
    fun _ => count⟩
  · rw [session_t]
  · rw [session_t, flag]
    rfl
  · intro _ empty
    rw [empty] at count
    exact inside count.symm
  · rw [session_t]
    exact inv.between.sent
  · rw [session_t]
    exact inv.between.unsent
  · simp [session_t]

/-- A row that closes its block. -/
theorem pass_close {o : Options} {s t : Publish} {i : Nat} (inv : RowInv o s)
    (border : i % o.limit = 0) (flag : t.inblock = false)
    (calls : t.calls = s.calls ++
      (openCalls s.inblock ++ writeCalls s.columns ++ .endBlock :: sendCalls o.bufferSize)) :
    Between o t.inblock (t.session o) ∧ After o i (t.session o) := by
  have session_t : t.session o = List.foldl _ (s.session o) _ := session_of_grown o.buffered calls
  rw [List.foldl_append, Session.foldl_row_in_block _ _ inv.between.flag, List.foldl_cons] at session_t
  obtain ⟨between, ended⟩ : Between o false (t.session o) ∧
      (t.session o).ended = (s.session o).ended ++ [s.nextRow] := by
    rw [session_t]
    exact between_of_completed _ rfl rfl inv.between.unsent
  refine ⟨flag ▸ between, by simp [ended], fun _ => ?_⟩
  have noBlock : (t.session o).block = none := by simpa using between.flag
  rw [Session.openRows, noBlock, border]
  rfl

/-- The calls of a row that closes its block: it holds at most `limit` rows. -/
theorem guarded_close {o : Options} {s : Publish} (between : Between o s.inblock (s.session o))
    (blocks : 0 < o.blockSize) :
    Guarded (Session.call o.buffered) (bracketGuard o.limit) (s.session o)
      (openCalls s.inblock ++ writeCalls s.columns ++ .endBlock :: sendCalls o.bufferSize) := by
  have fits := between.notFull blocks
  rw [guarded_append]
  refine ⟨guarded_write between, ?_⟩
  rw [Session.foldl_row_in_block _ _ between.flag]
  refine ⟨⟨rfl, _, rfl, by simp, ?_⟩, ?_⟩
  · rw [List.length_append, List.length_singleton]
    omega
  · unfold sendCalls
    split <;> simp [Guarded, bracketGuard]

/-- One pass of the for loop. -/
theorem rowInv_pass {o : Options} {s t : Publish} {i : Nat} {lcount : Nat} {start : Int64}
    (inv : RowInv o s) (pc : s.pc = .forTest lcount start i)
    (pc' : t.pc = .forTest lcount start (i + 1)) (pass : RowStep o i s t) : RowInv o t := by
  have assemble (here : Between o t.inblock (t.session o) ∧ After o i (t.session o))
      (guarded : 0 < o.blockSize →
        Guarded (Session.call o.buffered) (bracketGuard o.limit) .initial t.calls) :
      RowInv o t := by
    refine ⟨here.1, fun l st j at_j => ?_, guarded⟩
    rw [pc'] at at_j
    cases at_j
    exact here.2
  cases pass with
  | single noBlocks flag calls =>
    exact assemble (pass_single i inv noBlocks flag calls) fun blocks => absurd blocks noBlocks
  | stay blocks inside flag calls =>
    rw [decide_eq_false_iff_not, border_iff blocks] at inside
    apply assemble (pass_stay inv pc blocks inside flag calls)
    intro _
    rw [calls, guarded_append]
    exact ⟨inv.guarded blocks, guarded_write inv.between⟩
  | close blocks border flag calls =>
    rw [decide_eq_true_iff, border_iff blocks] at border
    apply assemble (pass_close inv border flag calls)
    intro _
    rw [calls, guarded_append]
    exact ⟨inv.guarded blocks, guarded_close inv.between blocks⟩

/-- The invariant does not look at the rest of the state. -/
theorem rowInv_congr {o : Options} {s t : Publish} (inv : RowInv o s) (flag : t.inblock = s.inblock)
    (calls : t.calls = s.calls)
    (after : ∀ lcount start i, t.pc = .forTest lcount start (i + 1) → After o i (s.session o)) :
    RowInv o t := by
  have same : t.session o = s.session o := by rw [Publish.session, calls, Publish.session]
  exact ⟨flag ▸ same ▸ inv.between, same ▸ after, calls ▸ inv.guarded⟩

theorem rowInv_commit {o : Options} {s t : Publish} (inv : RowInv o s)
    (flag : t.inblock = s.inblock) (calls : t.calls = s.calls ++ [.commit])
    (pc' : ∀ lcount start i, t.pc ≠ .forTest lcount start i) : RowInv o t := by
  have same : t.session o = s.session o := session_of_grown o.buffered calls
  refine ⟨flag ▸ same ▸ inv.between, fun l st i at_i => absurd at_i (pc' l st _), fun blocks => ?_⟩
  rw [calls, guarded_append]
  exact ⟨inv.guarded blocks, trivial, trivial⟩

theorem rowInv_step {o : Options} {s t : Publish} (inv : RowInv o s) (moves : Moves o s t) :
    RowInv o t := by
  cases moves with
  | row lcount start i more pc pc' pass => exact rowInv_pass inv pc pc' pass
  | enter lcount start pc' flag calls =>
    refine rowInv_congr inv flag calls fun l st i at_i => ?_
    rw [pc'] at at_i
    cases at_i
  | quiet pc' flag calls =>
    rcases calls with same | commit
    · exact rowInv_congr inv flag same fun l st i at_i => absurd at_i (pc' l st _)
    · exact rowInv_commit inv flag commit pc'

theorem rowInv_initial (o : Options) : RowInv o (.initial o) := by
  refine ⟨between_outside rfl rfl (fun _ => rfl) (fun _ => rfl), ?_, fun _ => trivial⟩
  intro lcount start i at_i
  cases at_i

theorem reachable_rowInv {o : Options} {s : Publish}
    (reach : Reachable (step o) (.initial o) s) : RowInv o s :=
  reach.invariant (RowInv o) (rowInv_initial o) fun _ _ _ inv move =>
    rowInv_step inv (step_cases move)

/-- Block bracketing. In every prefix of the calls of a run `startTransaction`
and `endBlock` take turns, rows lie inside an open block and a block that is
closed holds 1 to `blockSize` rows; between rows `inblock` says whether a block
is open. -/
theorem blocks_bracketed {o : Options} (blocks : 0 < o.blockSize) {s : Publish}
    (reach : Reachable (step o) (.initial o) s) :
    (∀ pre call post, s.calls = pre ++ call :: post →
        bracketGuard o.blockSize.toInt (Esp.session o.buffered pre) call) ∧
      (∀ pre, pre <+: s.calls → blockCalls pre = turns (blockCalls pre).length) ∧
      (s.session o).row = none ∧ s.inblock = (s.session o).block.isSome := by
  have inv := reachable_rowInv reach
  have guarded := inv.guarded blocks
  refine ⟨?_, ?_, inv.between.row, inv.between.flag⟩
  · intro pre call post split
    rw [split, Options.limit_eq blocks] at guarded
    exact guarded.call
  · rintro pre ⟨post, split⟩
    rw [← split, guarded_append] at guarded
    exact (blockCalls_of_guarded pre guarded.1).1

/-- Two batches of three rows in blocks of two. -/
def sampleOptions : Options := { blockSize := 2, bufferSize := 0, lcount := 2, numRows := 3 }

def twoBatches : List Act :=
  [.enter 0, .row, .row, .row, .endRows, .report 1, .enter 1, .row, .row, .row]

theorem blocks_bracketed_two_batches :
    ∃ s, exec (step sampleOptions) (.initial sampleOptions) twoBatches = some s ∧
      s.pc = .forTest 0 1 3 ∧
      ∀ pre, pre <+: s.calls → blockCalls pre = turns (blockCalls pre).length := by
  have ran : (exec (step sampleOptions) (.initial sampleOptions) twoBatches).map Publish.pc =
      some (.forTest 0 1 3) := by decide +kernel
  obtain ⟨s, run, pc⟩ := Option.map_eq_some_iff.mp ran
  exact ⟨s, run, pc, (blocks_bracketed (by decide) (.of_exec twoBatches .start run)).2.1⟩

/-! ## Rows at the commit -/

theorem index_le {o : Options} {s : Publish} (reach : Reachable (step o) (.initial o) s) :
    ∀ lcount start i, s.pc = .forTest lcount start i → i ≤ o.numRows := by
  refine reach.invariant (fun s => ∀ lcount start i, s.pc = .forTest lcount start i → i ≤ o.numRows)
    ?_ ?_
  · intro lcount start i at_i
    cases at_i
  · intro s act t inv move l st i at_i
    cases step_cases move with
    | row lcount start j more pc pc' pass =>
      rw [pc'] at at_i
      cases at_i
      exact more
    | enter lcount start pc' flag calls =>
      rw [pc'] at at_i
      cases at_i
      exact Nat.zero_le _
    | quiet pc' flag calls => exact absurd at_i (pc' l st i)

/-- Every row that was ended is sent or queued, once and in order, and the block
of the last ones is closed. -/
def AllHandedOver (t : Session) : Prop := t.handed = t.ended ∧ t.block = none

theorem allHandedOver_iff {buffered : Bool} {t : Session} (conserved : t.Conserved buffered)
    (notEmpty : t.block.isSome → t.openRows ≠ []) :
    AllHandedOver t ↔ t.held = [] ∧ t.openRows = [] := by
  have rows := conserved.rows
  constructor
  · rintro ⟨all, noBlock⟩
    rw [← all, List.append_assoc, List.append_right_eq_self, List.append_eq_nil_iff] at rows
    exact rows
  · rintro ⟨noneHeld, noneOpen⟩
    rw [noneHeld, noneOpen, List.append_nil, List.append_nil] at rows
    refine ⟨rows, ?_⟩
    cases block : t.block with
    | none => rfl
    | some inBlock =>
      have some_open := notEmpty (by simp [block])
      exact absurd noneOpen some_open

/-- At `publisher.commit()` every row was handed over exactly when the last row
of the batch closes its block and the publisher is not created without a buffer
and then never told to publish. -/
theorem all_handed_over_iff {o : Options} (someRows : 1 ≤ o.numRows) {s : Publish}
    (reach : Reachable (step o) (.initial o) s) (atCommit : AtCommit o s) :
    AllHandedOver (s.session o) ↔
      (¬ 0 < o.blockSize ∨ ((o.numRows : Int) - 1) % o.blockSize.toInt = 0) ∧
        ¬ o.bufferSize < 0 := by
  obtain ⟨start, i, pc, done⟩ := atCommit
  have inv := reachable_rowInv reach
  have conserved : (s.session o).Conserved o.buffered := session_conserved o.buffered s.calls
  obtain rfl : i = (o.numRows - 1) + 1 := by
    have below := index_le reach 0 start i pc
    omega
  obtain ⟨written, openRows⟩ := inv.after 0 start _ pc
  rw [allHandedOver_iff conserved inv.between.notEmpty]
  have remainder : 0 < o.blockSize →
      (((o.numRows : Int) - 1) % o.blockSize.toInt = 0 ↔ (s.session o).openRows = []) := by
    intro blocks
    rw [← List.length_eq_zero_iff, openRows blocks, ← Options.limit_eq blocks]
    have cast : (o.numRows : Int) - 1 = ((o.numRows - 1 : Nat) : Int) := by omega
    rw [cast, ← Int.natCast_emod]
    omega
  constructor
  · rintro ⟨noneHeld, noneOpen⟩
    constructor
    · by_cases blocks : 0 < o.blockSize
      · exact .inr ((remainder blocks).mpr noneOpen)
      · exact .inl blocks
    · intro negative
      have rows := conserved.rows
      rw [noneHeld, noneOpen, inv.between.unsent negative] at rows
      exact written rows.symm
  · rintro ⟨border, notNegative⟩
    constructor
    · rcases Java.Int32.eq_zero_or_pos (Int32.not_lt.mp notNegative) with direct | buffer
      · exact inv.between.sent direct
      · exact conserved.queued (decide_eq_true buffer)
    · rcases border with noBlocks | divides
      · rw [Session.openRows, inv.between.noBlocks noBlocks]
        rfl
      · by_cases blocks : 0 < o.blockSize
        · exact (remainder blocks).mp divides
        · rw [Session.openRows, inv.between.noBlocks blocks]
          rfl

theorem all_handed_over_iff_two_batches :
    ∃ s, exec (step sampleOptions) (.initial sampleOptions) twoBatches = some s ∧
      AllHandedOver (s.session sampleOptions) := by
  have ran : (exec (step sampleOptions) (.initial sampleOptions) twoBatches).map Publish.pc =
      some (.forTest 0 1 3) := by decide +kernel
  obtain ⟨s, run, pc⟩ := Option.map_eq_some_iff.mp ran
  have atCommit : AtCommit sampleOptions s := ⟨1, 3, pc, by decide⟩
  refine ⟨s, run, ?_⟩
  exact (all_handed_over_iff (by decide) (.of_exec twoBatches .start run) atCommit).mpr (by decide)

/-- One batch of two rows in blocks of two: the second row is still in an open
block at the commit. -/
theorem last_row_left_behind :
    ¬ ∀ (o : Options) (s : Publish), 1 ≤ o.lcount → 1 ≤ o.numRows →
      Reachable (step o) (.initial o) s → AtCommit o s → AllHandedOver (s.session o) := by
  intro claim
  let o : Options := { blockSize := 2, bufferSize := 0, lcount := 1, numRows := 2 }
  have ran : (exec (step o) (.initial o) [.enter 0, .row, .row]).map
      (fun s => (s.pc, (s.session o).handed.length, (s.session o).ended.length)) =
        some (.forTest 0 0 2, 1, 2) := by decide +kernel
  obtain ⟨s, run, left⟩ := Option.map_eq_some_iff.mp ran
  obtain ⟨pc, handed, ended⟩ : s.pc = .forTest 0 0 2 ∧ (s.session o).handed.length = 1 ∧
      (s.session o).ended.length = 2 := by simpa using left
  have all := (claim o s (by decide) (by decide) (.of_exec _ .start run) ⟨0, 2, pc, by decide⟩).1
  rw [all, ended] at handed
  cases handed

end StreamingPoc.Esp.DbagPublisher
