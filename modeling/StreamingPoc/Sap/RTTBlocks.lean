import StreamingPoc.Java.Int32
import StreamingPoc.Sap.RTTPublish

/-!
# Blocks of RTTClient.doPublish

A block is ended where `i` is a multiple of `blockSize`. `i` starts again at 1 in
every round while an open block stays open, and nothing ends a block after the
last round. Where `blockSize` divides `loopRecs` every round begins and ends
outside blocks and all blocks are of one size; elsewhere the last rows are in an
open block at the commit. All of this is about a publisher that heeds the calls of
blocks.
-/
namespace StreamingPoc.Sap.RTTClient

open StreamingPoc.Lib StreamingPoc.Esp

/-- The session after the calls made so far. -/
def Publish.session (o : Options) (s : Publish) : Session := Esp.session o.buffered s.calls

/-- Rows are ended inside blocks, each block that is not the last one holds
`blockSize` rows, and no block is open when `publisher.commit()` is next. -/
structure BlocksCut (o : Options) (s : Publish) : Prop where
  inside : ∀ pre post, s.calls = pre ++ .endRow :: post → (Esp.session o.buffered pre).block.isSome
  size : ∀ pre post, s.calls = pre ++ .endBlock :: post → .endBlock ∈ post →
    ((Esp.session o.buffered pre).openRows.length : Int) = o.blockSize.toInt
  closed : s.pc = .commit → (s.session o).block = none

/-- Rounds of whole blocks. With the greatest int for `loopRecs` the first round
never ends; there the blocks go on over the wrap of `i`. -/
def WholeBlocks (o : Options) : Prop :=
  if o.loopRecs = Int32.maxValue then (2 ^ 31 : Int) % o.blockSize.toInt = 0
  else o.loopRecs % o.blockSize = 0

/-! ## Arithmetic of the index -/

/-- The remainder that the next pass finds. -/
theorem next_remainder {o : Options} (whole : WholeBlocks o) {i : Int32} (more : i ≤ o.loopRecs) :
    ((i + 1).toInt - 1) % o.blockSize.toInt = i.toInt % o.blockSize.toInt := by
  by_cases last : i = Int32.maxValue
  · subst last
    have greatest : o.loopRecs = Int32.maxValue := by
      rw [Int32.le_iff_toInt_le] at more
      have hlt := o.loopRecs.toInt_lt
      rw [← Int32.toInt_inj]
      rw [Int32.toInt_maxValue] at more ⊢
      omega
    rw [WholeBlocks, if_pos greatest] at whole
    have wrapped : (Int32.maxValue + 1).toInt = -2 ^ 31 := by decide
    rw [wrapped, Int32.toInt_maxValue, Int.emod_eq_emod_iff_emod_sub_eq_zero]
    have twice : (-2 ^ 31 - 1 - (2 ^ 31 - 1) : Int) = 2 ^ 31 * (-2) := by decide
    rw [twice, Int.mul_emod, whole, Int.zero_mul, Int.zero_emod]
  · rw [Java.Int32.toInt_add_one last, Int.add_sub_cancel]

/-- The index after a pass, which may wrap only at the greatest int. -/
theorem next_index {i n : Int32} (more : i ≤ n) : i + 1 ≤ n ∨ i + 1 = n + 1 := by
  by_cases last : i = n
  · exact .inr (by rw [last])
  · left
    rw [Int32.le_iff_toInt_le] at more ⊢
    have notLast : i.toInt ≠ n.toInt := fun h => last (Int32.toInt_inj.mp h)
    have hlt := n.toInt_lt
    have notGreatest : i ≠ Int32.maxValue := by
      intro h
      rw [h, Int32.toInt_maxValue] at more notLast
      omega
    rw [Java.Int32.toInt_add_one notGreatest]
    omega

/-! ## The flag and the indices, for all tunables -/

/-- What a finished round leaves: the block is open unless its last row ended it. -/
def AfterRound (o : Options) (s : Publish) : Prop :=
  o.loopRecs ≠ Int32.maxValue ∧ s.inblock = decide (o.loopRecs % o.blockSize ≠ 0)

structure FlagInv (o : Options) (s : Publish) : Prop where
  row : (s.session o).row = none
  flag : s.inblock = (s.session o).block.isSome
  index : ∀ count start i, s.pc = .forTest count start i →
    (i ≤ o.loopRecs ∨ i = o.loopRecs + 1) ∧
      (i ≠ 1 → s.inblock = decide ((i - 1) % o.blockSize ≠ 0))
  firstTest : ∀ count, s.pc = .whileTest count → count = o.count ∨ AfterRound o s
  atCommit : s.pc = .commit → AfterRound o s

theorem session_commit (o : Options) (s : Publish) :
    Esp.session o.buffered (s.calls ++ [.commit]) = s.session o := session_of_grown o.buffered rfl

/-- The session after a pass that leaves its block open and after one that ends it. -/
theorem session_row {o : Options} (blocks : 0 < o.blockSize) {s : Publish} (inv : FlagInv o s) (i : Int32)
    (nanoTime : Int64) :
    ((row o i nanoTime s).session o).row = none ∧
      ((row o i nanoTime s).session o).block = if i % o.blockSize = 0 then none
        else some ((s.session o).openRows ++
          [{ operation := some .insert, columns := rowColumns nanoTime }]) := by
  obtain ⟨-, calls⟩ := row_in_block blocks i nanoTime s
  have session_t : (row o i nanoTime s).session o = List.foldl _ (s.session o) _ :=
    session_of_grown o.buffered calls
  rw [List.foldl_append, Session.foldl_row_in_block _ _ inv.flag] at session_t
  by_cases border : i % o.blockSize = 0
  · rw [if_pos border, List.foldl_cons] at session_t
    rw [session_t, if_pos border, Session.sendCalls_row, Session.sendCalls_block]
    simp [Session.call, Session.endBlock]
  · rw [if_neg border, List.foldl_nil] at session_t
    rw [session_t, if_neg border]
    exact ⟨rfl, rfl⟩

/-- The for loop is left one past the last record, which the greatest int has not. -/
theorem FlagInv.round_done {o : Options} {s : Publish} (inv : FlagInv o s) {count : Int32}
    {start : Int64} {i : Int32} (pc : s.pc = .forTest count start i) (done : ¬ i ≤ o.loopRecs) :
    i = o.loopRecs + 1 ∧ o.loopRecs ≠ Int32.maxValue := by
  have past : i = o.loopRecs + 1 := (inv.index count start i pc).1.resolve_left done
  refine ⟨past, fun greatest => ?_⟩
  rw [past, greatest] at done
  exact done (by decide)

theorem flagInv_step {o : Options} (blocks : 0 < o.blockSize) (records : 1 ≤ o.loopRecs)
    (rounds : 1 ≤ o.count) {s t : Publish} {act : Act} (inv : FlagInv o s)
    (move : step o s act = some t) : FlagInv o t := by
  cases step_from move with
  | enter count now pc positive =>
    refine ⟨inv.row, inv.flag, ?_, ?_, ?_⟩
    · intro c st i at_i
      cases at_i
      exact ⟨.inl records, fun other => absurd rfl other⟩
    · simp
    · simp
  | leave count pc done =>
    refine ⟨inv.row, inv.flag, ?_, ?_, ?_⟩
    · simp
    · simp
    · intro _
      rcases inv.firstTest count pc with first | later
      · rw [first, Int32.lt_iff_toInt_lt] at done
        rw [Int32.le_iff_toInt_le] at rounds
        exact absurd (Int.lt_of_lt_of_le (by decide) rounds) done
      · exact later
  | row count start i nanoTime pc more =>
    obtain ⟨flag, -⟩ := row_in_block blocks i nanoTime s
    obtain ⟨row, block⟩ := session_row blocks inv i nanoTime
    refine ⟨row, ?_, ?_, ?_, ?_⟩
    · refine flag.trans ?_
      change _ = ((RTTClient.row o i nanoTime s).session o).block.isSome
      rw [block]
      split <;> simp [*]
    · intro c st j at_j
      cases at_j
      refine ⟨next_index more, fun _ => ?_⟩
      rw [Int32.add_sub_cancel]
      exact flag
    · simp
    · simp
  | endRows count start i now pc done =>
    obtain ⟨past, notGreatest⟩ := inv.round_done pc done
    have border := (inv.index count start i pc).2
    have notFirst : i ≠ 1 := by
      rintro rfl
      exact done records
    refine ⟨inv.row, inv.flag, ?_, ?_, ?_⟩
    · simp
    · intro c _
      refine .inr ⟨notGreatest, ?_⟩
      rw [border notFirst, past, Int32.add_sub_cancel]
    · simp
  | commit start finish pc =>
    refine ⟨?_, ?_, ?_, ?_, ?_⟩
    · rw [Publish.session, session_commit]
      exact inv.row
    · rw [Publish.session, session_commit]
      exact inv.flag
    · simp
    · simp
    · simp

theorem flagInv_initial (o : Options) : FlagInv o (.initial o) := by
  refine ⟨rfl, rfl, ?_, ?_, ?_⟩
  · simp [Publish.initial]
  · intro count at_count
    cases at_count
    exact .inl rfl
  · simp [Publish.initial]

/-! ## The number of rows in a block, for whole blocks -/

/-- Rows are ended inside blocks, and a block that is ended holds `size` rows. -/
def cutGuard (size : Int) (s : Session) : Call → Prop
  | .endRow => s.block.isSome
  | .endBlock => (s.openRows.length : Int) = size
  | _ => True

structure CutInv (o : Options) (s : Publish) : Prop where
  guarded : Guarded (Session.call o.buffered) (cutGuard o.blockSize.toInt) .initial s.calls
  inRound : ∀ count start i, s.pc = .forTest count start i →
    ((s.session o).openRows.length : Int) = (i.toInt - 1) % o.blockSize.toInt
  outside : (∀ count start i, s.pc ≠ .forTest count start i) → (s.session o).openRows = []

theorem guarded_sendCalls (o : Options) (size : Int) (t : Session) :
    Guarded (Session.call o.buffered) (cutGuard size) t (sendCalls o.bufferSize) := by
  unfold sendCalls
  split <;> simp [Guarded, cutGuard]

theorem guarded_write {o : Options} {s : Publish} (inv : FlagInv o s) (nanoTime : Int64) :
    Guarded (Session.call o.buffered) (cutGuard o.blockSize.toInt) (s.session o)
      (openCalls s.inblock ++ writeCalls (rowColumns nanoTime)) := by
  rw [guarded_append, Session.foldl_openCalls _ inv.flag]
  constructor
  · cases s.inblock <;> simp [openCalls, Guarded, cutGuard]
  · simp [writeCalls, rowColumns, Guarded, cutGuard, Session.call]

/-- The remainder goes up by one, or from `n - 1` to 0. -/
theorem remainder_succ (i : Int) {n : Int} (positive : 0 < n) :
    (i % n = 0 ∧ (i - 1) % n + 1 = n) ∨ (i % n ≠ 0 ∧ i % n = (i - 1) % n + 1) := by
  have whole := Int.emod_add_mul_ediv (i - 1) n
  have hlo := Int.emod_nonneg (i - 1) (Int.ne_of_gt positive)
  have hhi := Int.emod_lt_of_pos (i - 1) positive
  by_cases last : (i - 1) % n + 1 = n
  · left
    refine ⟨?_, last⟩
    have multiple : i = n * ((i - 1) / n + 1) := by
      rw [Int.mul_add, Int.mul_one]
      omega
    rw [multiple, Int.mul_emod_right]
  · right
    have value : i % n = (i - 1) % n + 1 := by
      have split : i = (i - 1) % n + 1 + n * ((i - 1) / n) := by omega
      conv_lhs => rw [split]
      rw [Int.add_mul_emod_self_left]
      exact Int.emod_eq_of_lt (by omega) (by omega)
    exact ⟨by omega, value⟩

theorem cutInv_row {o : Options} (blocks : 0 < o.blockSize) (whole : WholeBlocks o) {s : Publish}
    {count : Int32} {start : Int64} {i : Int32} (nanoTime : Int64) (flags : FlagInv o s) (inv : CutInv o s)
    (pc : s.pc = .forTest count start i) (more : i ≤ o.loopRecs) :
    CutInv o { row o i nanoTime s with pc := .forTest count start (i + 1) } := by
  have positive : 0 < o.blockSize.toInt := Int32.lt_iff_toInt_lt.mp blocks
  have before := inv.inRound count start i pc
  obtain ⟨-, calls⟩ := row_in_block blocks i nanoTime s
  obtain ⟨-, block⟩ := session_row blocks flags i nanoTime
  have remainder := next_remainder whole more
  have succ := remainder_succ i.toInt positive
  refine ⟨?_, ?_, ?_⟩
  · change Guarded _ _ _ (row o i nanoTime s).calls
    rw [calls, guarded_append, guarded_append]
    refine ⟨inv.guarded, guarded_write flags nanoTime, ?_⟩
    by_cases border : i % o.blockSize = 0
    · rw [if_pos border]
      refine ⟨?_, guarded_sendCalls o _ _⟩
      rw [Java.Int32.mod_eq_zero_iff] at border
      have full := (succ.resolve_right fun h => h.1 border).2
      change ((List.foldl _ (s.session o) _).openRows.length : Int) = _
      rw [Session.foldl_row_in_block _ _ flags.flag]
      simp only [Session.openRows, Option.getD_some, List.length_append, List.length_singleton]
      rw [← Session.openRows]
      omega
    · rw [if_neg border]
      trivial
  · intro c st j at_j
    cases at_j
    change (((row o i nanoTime s).session o).openRows.length : Int) = _
    rw [remainder, Session.openRows, block]
    by_cases border : i % o.blockSize = 0
    · rw [if_pos border, (Java.Int32.mod_eq_zero_iff _ _).mp border]
      rfl
    · rw [if_neg border]
      rw [Java.Int32.mod_eq_zero_iff] at border
      have next := (succ.resolve_left fun h => border h.1).2
      simp only [Option.getD_some, List.length_append, List.length_singleton]
      omega
  · intro noRow
    exact absurd rfl (noRow count start (i + 1))

theorem cutInv_step {o : Options} (blocks : 0 < o.blockSize) (whole : WholeBlocks o) {s t : Publish}
    {act : Act} (flags : FlagInv o s) (inv : CutInv o s) (move : step o s act = some t) : CutInv o t := by
  cases step_from move with
  | enter count now pc positive =>
    refine ⟨inv.guarded, ?_, by simp⟩
    intro c st i at_i
    cases at_i
    have empty : (s.session o).openRows = [] := inv.outside (by simp [pc])
    change ((s.session o).openRows.length : Int) = _
    rw [empty]
    simp
  | leave count pc done => exact ⟨inv.guarded, by simp, fun _ => inv.outside (by simp [pc])⟩
  | row count start i nanoTime pc more => exact cutInv_row blocks whole nanoTime flags inv pc more
  | endRows count start i now pc done =>
    refine ⟨inv.guarded, by simp, fun _ => ?_⟩
    obtain ⟨past, notGreatest⟩ := flags.round_done pc done
    have length := inv.inRound count start i pc
    rw [WholeBlocks, if_neg notGreatest, Java.Int32.mod_eq_zero_iff] at whole
    rw [past, Java.Int32.toInt_add_one notGreatest, Int.add_sub_cancel, whole] at length
    change (s.session o).openRows = []
    rw [← List.length_eq_zero_iff]
    omega
  | commit start finish pc =>
    refine ⟨?_, by simp, fun _ => ?_⟩
    · rw [guarded_append]
      exact ⟨inv.guarded, trivial, trivial⟩
    · rw [Publish.session, session_commit]
      exact inv.outside (by simp [pc])

theorem cutInv_initial (o : Options) : CutInv o (.initial o) :=
  ⟨trivial, by simp [Publish.initial], fun _ => rfl⟩

/-! ## Runs -/

theorem reachable_flagInv {o : Options} (blocks : 0 < o.blockSize) (records : 1 ≤ o.loopRecs)
    (rounds : 1 ≤ o.count) {s : Publish} (reach : Reachable (step o) (.initial o) s) :
    FlagInv o s :=
  reach.invariant (FlagInv o) (flagInv_initial o) fun _ _ _ inv move =>
    flagInv_step blocks records rounds inv move

theorem reachable_cutInv {o : Options} (blocks : 0 < o.blockSize) (records : 1 ≤ o.loopRecs)
    (rounds : 1 ≤ o.count) (whole : WholeBlocks o) {s : Publish}
    (reach : Reachable (step o) (.initial o) s) : FlagInv o s ∧ CutInv o s := by
  refine reach.invariant (fun s => FlagInv o s ∧ CutInv o s)
    ⟨flagInv_initial o, cutInv_initial o⟩ ?_
  rintro s act t ⟨flags, inv⟩ move
  exact ⟨flagInv_step blocks records rounds flags move, cutInv_step blocks whole flags inv move⟩

/-- No block is open at the commit exactly when the last row of a round ends one. -/
theorem closed_iff {o : Options} {s : Publish} (flags : FlagInv o s) (atCommit : s.pc = .commit) :
    (s.session o).block = none ↔ o.loopRecs % o.blockSize = 0 := by
  have open_iff := (flags.atCommit atCommit).2
  rw [flags.flag] at open_iff
  cases block : (s.session o).block with
  | none => simpa [block] using open_iff
  | some rows => simpa [block] using open_iff

theorem blocksCut_of_inv {o : Options} {s : Publish} (whole : WholeBlocks o) (flags : FlagInv o s)
    (inv : CutInv o s) : BlocksCut o s := by
  have guarded := inv.guarded
  refine ⟨?_, ?_, ?_⟩
  · intro pre post split
    rw [split] at guarded
    exact guarded.call
  · intro pre post split _
    rw [split] at guarded
    exact guarded.call
  · intro atCommit
    rw [WholeBlocks, if_neg (flags.atCommit atCommit).1] at whole
    exact (closed_iff flags atCommit).mpr whole

/-- Block cutting. Where `blockSize` divides `loopRecs`, every block of a run holds
`blockSize` rows and none is open at the commit; and a run that comes to the
commit cuts its rows so only then. -/
theorem blocks_cut_iff {o : Options} (blocks : 0 < o.blockSize) (records : 1 ≤ o.loopRecs)
    (rounds : 1 ≤ o.count) :
    (WholeBlocks o → ∀ s, Reachable (step o) (.initial o) s → BlocksCut o s) ∧
      ∀ s, Reachable (step o) (.initial o) s → s.pc = .commit →
        (BlocksCut o s ↔ o.loopRecs % o.blockSize = 0) := by
  have cut (whole : WholeBlocks o) (s : Publish) (reach : Reachable (step o) (.initial o) s) :
      BlocksCut o s := by
    obtain ⟨flags, inv⟩ := reachable_cutInv blocks records rounds whole reach
    exact blocksCut_of_inv whole flags inv
  refine ⟨cut, fun s reach atCommit => ?_⟩
  have flags := reachable_flagInv blocks records rounds reach
  constructor
  · intro blocksCut
    exact (closed_iff flags atCommit).mp (blocksCut.closed atCommit)
  · intro divides
    apply cut _ s reach
    rw [WholeBlocks, if_neg (flags.atCommit atCommit).1]
    exact divides

/-- Two rounds of four rows in blocks of two, and of three rows. -/
def fourRows : Options := { blockSize := 2, bufferSize := 1000, loopRecs := 4, count := 2 }

def threeRows : Options := { fourRows with loopRecs := 3 }

def twoRounds (rows : Nat) : List Act :=
  let round : List Act := .enter 0 :: List.replicate rows (.row 7) ++ [.endRows 1]
  round ++ round ++ [.leave]

theorem blocks_cut_iff_four_rows :
    ∃ s, exec (step fourRows) (.initial fourRows) (twoRounds 4) = some s ∧ s.pc = .commit ∧
      BlocksCut fourRows s := by
  have ran : (exec (step fourRows) (.initial fourRows) (twoRounds 4)).map Publish.pc =
      some .commit := by decide +kernel
  obtain ⟨s, run, pc⟩ := Option.map_eq_some_iff.mp ran
  have reach : Reachable (step fourRows) (.initial fourRows) s := .of_exec _ .start run
  refine ⟨s, run, pc, ?_⟩
  exact ((blocks_cut_iff (by decide) (by decide) (by decide)).2 s reach pc).mpr (by decide)

/-- Rounds of three rows in blocks of two: the third row of the first round goes
into the block of the second round, which ends with three rows, and the third row
of the second round is in an open block at the commit. -/
theorem blocks_not_cut :
    ¬ ∀ (o : Options) (s : Publish), 0 < o.blockSize → 1 ≤ o.loopRecs → 1 ≤ o.count →
      Reachable (step o) (.initial o) s → BlocksCut o s := by
  intro claim
  have ran : (exec (step threeRows) (.initial threeRows) (twoRounds 3)).map
      (fun s => (s.pc, (s.session threeRows).block.isSome)) = some (.commit, true) := by
    decide +kernel
  obtain ⟨s, run, left⟩ := Option.map_eq_some_iff.mp ran
  obtain ⟨pc, stillOpen⟩ := Prod.mk.inj left
  have closed := (claim threeRows s (by decide) (by decide) (by decide) (.of_exec _ .start run)).closed pc
  rw [closed] at stillOpen
  cases stillOpen

end StreamingPoc.Sap.RTTClient
