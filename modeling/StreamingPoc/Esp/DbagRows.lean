import StreamingPoc.Esp.DbagBlocks

/-!
# The rows that DbagPublisher.publish hands over

The counters `long_value` and `int_value` run through all batches
(DbagPublisher.java:76-94), so they number the rows. What is sent or queued is a
first part of this numbering: all rows written where there is a buffer, because
the publisher is created in the default mode, and the rows in front of the open
block where there is none.
-/
namespace StreamingPoc.Esp.DbagPublisher

open StreamingPoc.Lib

def numberedRow (k : Nat) : Row :=
  { operation := some .insert, columns := [.long (Int64.ofNat k), .integer (Int32.ofNat k)] }

def numberedRows (n : Nat) : List Row := (List.range n).map numberedRow

/-- The rows of a run that are still to be written. -/
def Pc.rowsLeft (o : Options) : Pc → Nat
  | .whileTest lcount => lcount * o.numRows
  | .forTest lcount _ i => lcount * o.numRows + (o.numRows - i)
  | .report lcount _ => lcount * o.numRows
  | .stopped => 0
  | .arithmeticException => 0

/-- The session in the mode of the publisher, for which no option is set. -/
def Publish.delivered (o : Options) (s : Publish) : Session := Esp.delivered o.buffered s.calls

/-- The rows in the open block after a batch. -/
def Options.leftover (o : Options) : Nat :=
  if 0 < o.blockSize ∧ ¬ 0 < o.bufferSize then (o.numRows - 1) % o.limit else 0

theorem numberedRows_succ (n : Nat) : numberedRows (n + 1) = numberedRows n ++ [numberedRow n] := by
  simp [numberedRows, List.range_succ]

@[simp] theorem length_numberedRows (n : Nat) : (numberedRows n).length = n := by simp [numberedRows]

theorem take_numberedRows {m n : Nat} (le : m ≤ n) : (numberedRows n).take m = numberedRows m := by
  rw [numberedRows, ← List.map_take, List.take_range, Nat.min_eq_left le]
  rfl

/-! ## One pass -/

section

variable (o : Options) (i : Nat) (s : Publish)

/-- Every pass ends one row, with the counters. -/
theorem ended_row : ((row o i s).session o).ended = (s.session o).ended ++ [s.nextRow] :=
  BlockWriter.ended_row o.buffered o.blockSize o.bufferSize _ s.columns s.toBlockWriter

end

/-! ## All passes -/

/-- The rows written so far are numbered, the counters are the next number, and
between batches the open block holds what the batch before left in it. -/
structure Numbered (o : Options) (s : Publish) : Prop where
  rows : (s.session o).ended = numberedRows (s.session o).ended.length
  longValue : s.longValue = Int64.ofNat (s.session o).ended.length
  intValue : s.intValue = Int32.ofNat (s.session o).ended.length
  left : s.pc ≠ .arithmeticException →
    (s.session o).ended.length + s.pc.rowsLeft o = o.lcount * o.numRows
  between : (∀ lcount start i, s.pc ≠ .forTest lcount start (i + 1)) → (s.session o).ended ≠ [] →
    0 < o.blockSize → (s.session o).openRows.length = (o.numRows - 1) % o.limit

theorem numbered_row {o : Options} {s : Publish} {lcount : Nat} {start : Int64} {i : Nat}
    (inv : Numbered o s) (pc : s.pc = .forTest lcount start i) (more : i < o.numRows) :
    Numbered o { row o i s with pc := .forTest lcount start (i + 1) } := by
  have ended := ended_row o i s
  have length : ((row o i s).session o).ended.length = (s.session o).ended.length + 1 := by
    rw [ended, List.length_append, List.length_singleton]
  have next : s.nextRow = numberedRow (s.session o).ended.length := by
    rw [Publish.nextRow, Publish.columns, inv.longValue, inv.intValue, numberedRow]
  constructor
  · show ((row o i s).session o).ended = numberedRows ((row o i s).session o).ended.length
    rw [length, numberedRows_succ, ← inv.rows, ← next]
    exact ended
  · show s.longValue + 1 = Int64.ofNat ((row o i s).session o).ended.length
    rw [length, inv.longValue, Int64.ofNat_add]
    rfl
  · show s.intValue + 1 = Int32.ofNat ((row o i s).session o).ended.length
    rw [length, inv.intValue, Int32.ofNat_add]
    rfl
  · intro _
    have left := inv.left (by simp [pc])
    rw [pc] at left
    show ((row o i s).session o).ended.length + (lcount * o.numRows + (o.numRows - (i + 1))) = _
    simp only [Pc.rowsLeft] at left
    omega
  · intro notAfter
    exact absurd rfl (notAfter lcount start i)

/-- A step that leaves the session and the counters as they are. -/
theorem Numbered.frame {o : Options} {s t : Publish} (inv : Numbered o s) (session : t.session o = s.session o)
    (long : t.longValue = s.longValue) (int : t.intValue = s.intValue)
    (left : t.pc ≠ .arithmeticException → s.pc ≠ .arithmeticException ∧ t.pc.rowsLeft o = s.pc.rowsLeft o)
    (between : (s.session o).ended ≠ [] → 0 < o.blockSize →
      (s.session o).openRows.length = (o.numRows - 1) % o.limit) :
    Numbered o t := by
  constructor
  · rw [session]
    exact inv.rows
  · rw [session, long]
    exact inv.longValue
  · rw [session, int]
    exact inv.intValue
  · intro normal
    obtain ⟨normal', same⟩ := left normal
    rw [session, same]
    exact inv.left normal'
  · intro _
    rw [session]
    exact between

theorem reachable_numbered {o : Options} {s : Publish} (reach : Reachable (step o) (.initial o) s) :
    Numbered o s := by
  induction reach with
  | start => exact ⟨rfl, rfl, rfl, fun _ => Nat.zero_add _, fun _ written => absurd rfl written⟩
  | next act before move inv =>
    cases step_from move with
    | enter lcount now pc =>
      refine inv.frame rfl rfl rfl (fun _ => ⟨by simp [pc], ?_⟩) (inv.between (by simp [pc]))
      rw [pc, Pc.rowsLeft, Pc.rowsLeft, Nat.succ_mul, Nat.sub_zero]
    | leave pc =>
      refine inv.frame rfl rfl rfl (fun _ => ⟨by simp [pc], ?_⟩) (inv.between (by simp [pc]))
      rw [pc, Pc.rowsLeft, Pc.rowsLeft, Nat.zero_mul]
    | row lcount start i pc more => exact numbered_row inv pc more
    | endRows lcount start i pc done =>
      have below := index_le before lcount start i pc
      refine inv.frame ?_ rfl rfl (fun _ => ⟨by simp [pc], ?_⟩) ?_
      · refine (session_of_grown o.buffered rfl).trans ?_
        split <;> rfl
      · rw [pc, Pc.rowsLeft, Pc.rowsLeft]
        omega
      · intro written blocks
        cases i with
        | zero => exact inv.between (by simp [pc]) written blocks
        | succ j =>
          rw [((reachable_rowInv before).after lcount start j pc).openRows blocks]
          congr 1
          omega
    | abort lcount start now pc zero =>
      exact inv.frame rfl rfl rfl (fun normal => absurd rfl normal) (inv.between (by simp [pc]))
    | report lcount start now pc nonzero =>
      refine inv.frame rfl rfl rfl (fun _ => ⟨by simp [pc], ?_⟩) (inv.between (by simp [pc]))
      rw [pc, Pc.rowsLeft, Pc.rowsLeft]

theorem ended_length_le {o : Options} {s : Publish} (reach : Reachable (step o) (.initial o) s) :
    (s.session o).ended.length ≤ o.lcount * o.numRows := by
  by_cases aborted : s.pc = .arithmeticException
  · cases reach with
    | start => exact Nat.zero_le _
    | next act before move =>
      -- the batch of the failed division is over, and no row was written by it
      have left := (reachable_numbered before).left
      cases step_from move with
      | abort lcount start now pc zero =>
        have all := left (by simp [pc])
        exact Nat.le.intro all
      | _ => exact nomatch aborted
  · exact Nat.le.intro ((reachable_numbered reach).left aborted)

section

variable {o : Options} {s : Publish}

theorem delivered_buffer (buffer : 0 < o.bufferSize) (s : Publish) :
    (s.delivered o).handed = (s.session o).ended ∧ (s.delivered o).openRows = [] := by
  have buffered : o.buffered = true := decide_eq_true buffer
  rw [Publish.delivered, Publish.session, buffered]
  exact delivered_buffered s.calls

theorem delivered_noBuffer (noBuffer : ¬ 0 < o.bufferSize) (s : Publish) : s.delivered o = s.session o := by
  rw [Publish.delivered, Publish.session, Options.not_buffered noBuffer, delivered_unbuffered]

/-- A first part of the numbered rows is handed over, whatever the sizes. -/
theorem handed_prefix (reach : Reachable (step o) (.initial o) s) :
    (s.delivered o).handed <+: numberedRows (o.lcount * o.numRows) := by
  have written : (s.delivered o).handed <+: (s.session o).ended := delivered_prefix o.buffered s.calls
  refine written.trans ?_
  rw [(reachable_numbered reach).rows, ← take_numberedRows (ended_length_le reach)]
  exact List.take_prefix _ _

/-- With a buffer size that is not negative nothing completed waits in the writer. -/
theorem handed_append_openRows (notNegative : 0 ≤ o.bufferSize) (reach : Reachable (step o) (.initial o) s) :
    (s.delivered o).handed ++ (s.delivered o).openRows = numberedRows (s.session o).ended.length := by
  rw [← (reachable_numbered reach).rows]
  rcases Java.Int32.eq_zero_or_pos notNegative with direct | buffer
  · rw [delivered_noBuffer (by simp [direct])]
    have conserved : (s.session o).Conserved o.buffered := session_conserved o.buffered s.calls
    rw [← conserved.rows, (reachable_rowInv reach).between.sent direct, List.append_nil]
  · obtain ⟨handed, noneOpen⟩ := delivered_buffer buffer s
    rw [handed, noneOpen, List.append_nil]

theorem openRows_length_lt (reach : Reachable (step o) (.initial o) s) :
    (s.delivered o).openRows.length < max 1 o.limit := by
  have inv := (reachable_rowInv reach).between
  by_cases buffer : 0 < o.bufferSize
  · rw [(delivered_buffer buffer s).2]
    exact Nat.lt_of_lt_of_le Nat.one_pos (Nat.le_max_left _ _)
  · rw [delivered_noBuffer buffer]
    by_cases blocks : 0 < o.blockSize
    · exact Nat.lt_of_lt_of_le (inv.notFull blocks) (Nat.le_max_right _ _)
    · rw [Session.openRows, inv.noBlocks blocks]
      exact Nat.lt_of_lt_of_le Nat.one_pos (Nat.le_max_left _ _)

/-- What is in the open block when `publish` has returned. -/
theorem openRows_length_of_stopped (reach : Reachable (step o) (.initial o) s) (stopped : s.pc = .stopped)
    (written : (s.session o).ended ≠ []) : (s.delivered o).openRows.length = o.leftover := by
  unfold Options.leftover
  by_cases buffer : 0 < o.bufferSize
  · rw [(delivered_buffer buffer s).2, if_neg fun left => left.2 buffer]
    rfl
  · rw [delivered_noBuffer buffer]
    by_cases blocks : 0 < o.blockSize
    · rw [if_pos ⟨blocks, buffer⟩]
      exact (reachable_numbered reach).between (by simp [stopped]) written blocks
    · rw [if_neg fun left => blocks left.1, Session.openRows, (reachable_rowInv reach).between.noBlocks blocks]
      rfl

/-- When `publish` has returned. -/
theorem handed_of_stopped (notNegative : 0 ≤ o.bufferSize) (reach : Reachable (step o) (.initial o) s)
    (stopped : s.pc = .stopped) (someRows : 1 ≤ o.numRows) (someBatch : 1 ≤ o.lcount) :
    (s.delivered o).handed = numberedRows (o.lcount * o.numRows - o.leftover) := by
  have parts := handed_append_openRows notNegative reach
  have all := (reachable_numbered reach).left (by simp [stopped])
  rw [stopped, Pc.rowsLeft, Nat.add_zero] at all
  have written : (s.session o).ended ≠ [] := by
    intro none
    rw [none, List.length_nil] at all
    have := Nat.mul_pos someBatch someRows
    omega
  have left := openRows_length_of_stopped reach stopped written
  have count := congrArg List.length parts
  rw [List.length_append, left, length_numberedRows, all] at count
  have front := congrArg (List.take (s.delivered o).handed.length) parts
  rw [List.take_left', take_numberedRows] at front
  · rw [front]
    congr 1
    omega
  · omega
  · rfl

/-- Where the rows are, with a buffer size that is not negative: between rows all
that was written is numbered from 0, the first rows are sent or queued and the
open block has the rest, less than a block and none with a buffer; and when
`publish` has returned, all rows are sent or queued but those of the last block
that the last index left open without a buffer. -/
theorem rows_at_server (notNegative : 0 ≤ o.bufferSize) (reach : Reachable (step o) (.initial o) s) :
    (s.delivered o).handed ++ (s.delivered o).openRows = numberedRows (s.session o).ended.length ∧
      (s.delivered o).openRows.length < max 1 o.limit ∧
      (0 < o.bufferSize → (s.delivered o).openRows = []) ∧
      (s.pc = .stopped → 1 ≤ o.numRows → 1 ≤ o.lcount →
        (s.delivered o).handed = numberedRows (o.lcount * o.numRows - o.leftover)) :=
  ⟨handed_append_openRows notNegative reach, openRows_length_lt reach,
    fun buffer => (delivered_buffer buffer s).2, handed_of_stopped notNegative reach⟩

end

def twoBatchesOfTwo : List Act :=
  [.enter 0, .row, .row, .endRows, .report 1, .enter 2, .row, .row, .endRows, .report 3, .leave]

/-- Two batches of two rows in blocks of two: without a buffer the last row stays
in its block, with a buffer no row does. -/
theorem rows_at_server_two_batches :
    (let o : Options := { blockSize := 2, bufferSize := 0, lcount := 2, numRows := 2 }
      ∃ s, exec (step o) (.initial o) twoBatchesOfTwo = some s ∧ (s.delivered o).handed = numberedRows 3) ∧
    (let o : Options := { blockSize := 2, bufferSize := 8, lcount := 2, numRows := 2 }
      ∃ s, exec (step o) (.initial o) twoBatchesOfTwo = some s ∧ (s.delivered o).handed = numberedRows 4) := by
  constructor
  · intro o
    have ran : (exec (step o) (.initial o) twoBatchesOfTwo).map Publish.pc = some .stopped := by
      decide +kernel
    obtain ⟨s, run, pc⟩ := Option.map_eq_some_iff.mp ran
    exact ⟨s, run, (rows_at_server (by decide) (.of_exec _ .start run)).2.2.2 pc (by decide) (by decide)⟩
  · intro o
    have ran : (exec (step o) (.initial o) twoBatchesOfTwo).map Publish.pc = some .stopped := by
      decide +kernel
    obtain ⟨s, run, pc⟩ := Option.map_eq_some_iff.mp ran
    exact ⟨s, run, (rows_at_server (by decide) (.of_exec _ .start run)).2.2.2 pc (by decide) (by decide)⟩

end StreamingPoc.Esp.DbagPublisher
