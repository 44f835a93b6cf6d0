import StreamingPoc.Lib.Trace
import Mathlib.Data.List.Induction
import Mathlib.Data.Rat.Defs

/-!
# The publishing side of the ESP SDK

The calls that the publishers make on a publisher, its message writer and the
row writer, and where the rows are after them, as esp_publisher.h documents
it. Rows written inside a block stay in it until `endBlock`. A publisher without
a buffer holds completed rows and blocks in the writer until `publish` sends
them; a publisher with a buffer queues them when they are completed, and
`publish` only waits. `commit` moves no row.

With a buffer blocks are heeded in the mode EXPLICIT_BLOCKING only. The default,
which no program here changes, is NO_BLOCKING: starts and ends of blocks are
ignored and rows go singly. `session` heeds all calls, `delivered` those that
the default mode does.

The header says nothing of a start inside a block, of an end without one and of
an end of a row that was not started; the session ignores these calls.
-/
namespace StreamingPoc.Esp

open StreamingPoc.Lib

inductive Operation where
  | insert
  deriving DecidableEq, Repr

inductive Column where
  | long (value : Int64)
  | integer (value : Int32)
  | float (value : ℚ)
  deriving DecidableEq, Repr

structure Row where
  operation : Option Operation
  columns : List Column
  deriving DecidableEq, Repr

/-- The first column, the key of the stream, as the subscribers read it. -/
def Row.key (row : Row) : Option Int64 :=
  match row.columns with
  | .long value :: _ => some value
  | _ => none

inductive Call where
  | startTransaction
  | startRow
  | setOperation (operation : Operation)
  | set (column : Column)
  | endRow
  | endBlock
  | publish
  | commit
  deriving DecidableEq, Repr

/-- `row` is the row being written, `block` the rows of the open block, `held`
what the writer of a publisher without a buffer holds, `handed` what was sent or
queued. `ended` is the record of all rows that were ended. -/
structure Session where
  row : Option Row
  block : Option (List Row)
  held : List Row
  handed : List Row
  ended : List Row
  deriving DecidableEq, Repr

namespace Session

def initial : Session := { row := none, block := none, held := [], handed := [], ended := [] }

/-- Rows or a block that are complete. -/
def complete (buffered : Bool) (s : Session) (rows : List Row) : Session :=
  if buffered then { s with handed := s.handed ++ rows } else { s with held := s.held ++ rows }

def addRow (buffered : Bool) (s : Session) (row : Row) : Session :=
  let s := { s with row := none, ended := s.ended ++ [row] }
  match s.block with
  | some rows => { s with block := some (rows ++ [row]) }
  | none => s.complete buffered [row]

def endRow (buffered : Bool) (s : Session) : Session :=
  match s.row with
  | some row => s.addRow buffered row
  | none => s

def endBlock (buffered : Bool) (s : Session) : Session :=
  match s.block with
  | some rows => { s with block := none }.complete buffered rows
  | none => s

def publish (buffered : Bool) (s : Session) : Session :=
  if buffered then s else { s with handed := s.handed ++ s.held, held := [] }

def call (buffered : Bool) (s : Session) : Call → Session
  | .startTransaction => { s with block := some (s.block.getD []) }
  | .startRow => { s with row := some { operation := none, columns := [] } }
  | .setOperation operation =>
    { s with row := s.row.map fun row => { row with operation := some operation } }
  | .set column => { s with row := s.row.map fun row => { row with columns := row.columns ++ [column] } }
  | .endRow => s.endRow buffered
  | .endBlock => s.endBlock buffered
  | .publish => s.publish buffered
  | .commit => s

/-- The rows of the open block. -/
def openRows (s : Session) : List Row := s.block.getD []

section

variable (buffered : Bool) (s : Session) (rows : List Row)

@[simp] theorem complete_row : (s.complete buffered rows).row = s.row := by
  cases buffered <;> rfl

@[simp] theorem complete_block : (s.complete buffered rows).block = s.block := by
  cases buffered <;> rfl

@[simp] theorem complete_ended : (s.complete buffered rows).ended = s.ended := by
  cases buffered <;> rfl

@[simp] theorem complete_unbuffered_handed : (s.complete false rows).handed = s.handed := rfl

@[simp] theorem publish_row : (s.publish buffered).row = s.row := by cases buffered <;> rfl

@[simp] theorem publish_block : (s.publish buffered).block = s.block := by cases buffered <;> rfl

@[simp] theorem publish_ended : (s.publish buffered).ended = s.ended := by cases buffered <;> rfl

@[simp] theorem publish_unbuffered_held : (s.publish false).held = [] := rfl

/-- Outside blocks a row is complete when it is ended. -/
theorem addRow_outside {s : Session} (outside : s.block = none) (row : Row) :
    s.addRow buffered row =
      { s with row := none, ended := s.ended ++ [row] }.complete buffered [row] := by
  simp [addRow, outside]

/-- Inside a block it waits for the end of the block. -/
theorem addRow_inside {s : Session} {inBlock : List Row} (inside : s.block = some inBlock)
    (row : Row) :
    s.addRow buffered row =
      { s with row := none, ended := s.ended ++ [row], block := some (inBlock ++ [row]) } := by
  simp [addRow, inside]

@[simp] theorem addRow_row (row : Row) : (s.addRow buffered row).row = none := by
  cases block : s.block with
  | none => rw [addRow_outside _ block, complete_row]
  | some rows => rw [addRow_inside _ block]

@[simp] theorem addRow_ended (row : Row) : (s.addRow buffered row).ended = s.ended ++ [row] := by
  cases block : s.block with
  | none => rw [addRow_outside _ block, complete_ended]
  | some rows => rw [addRow_inside _ block]

@[simp] theorem endBlock_row : (s.endBlock buffered).row = s.row := by
  unfold endBlock
  split
  · exact complete_row _ _ _
  · rfl

@[simp] theorem endBlock_ended : (s.endBlock buffered).ended = s.ended := by
  unfold endBlock
  split
  · exact complete_ended _ _ _
  · rfl

end

end Session

/-- A row from `startRow` to `endRow`. -/
def writeCalls (columns : List Column) : List Call :=
  .startRow :: .setOperation .insert :: columns.map .set ++ [.endRow]

namespace Session

theorem foldl_set (buffered : Bool) (columns : List Column) (s : Session) {row : Row}
    (writing : s.row = some row) :
    (columns.map .set).foldl (call buffered) s =
      { s with row := some { row with columns := row.columns ++ columns } } := by
  induction columns generalizing s row with
  | nil => simp [← writing]
  | cons column columns ih =>
    have next : (s.call buffered (.set column)).row =
        some { row with columns := row.columns ++ [column] } := by
      simp [call, writing]
    rw [List.map_cons, List.foldl_cons, ih _ next]
    simp [call]

theorem foldl_writeCalls (buffered : Bool) (columns : List Column) (s : Session) :
    (writeCalls columns).foldl (call buffered) s =
      s.addRow buffered { operation := some .insert, columns } := by
  have writing : ((s.call buffered .startRow).call buffered (.setOperation .insert)).row =
      some { operation := some .insert, columns := [] } := by
    simp [call]
  unfold writeCalls
  rw [List.cons_append, List.cons_append, List.foldl_cons, List.foldl_cons, List.foldl_append,
    foldl_set buffered columns _ writing]
  simp [call, endRow, addRow]

/-- A call adds at most a row at the end of the rows that were ended. -/
theorem ended_prefix_call (buffered : Bool) (s : Session) (c : Call) :
    s.ended <+: (s.call buffered c).ended := by
  cases c with
  | endRow =>
    simp only [call, endRow]
    split
    · rw [addRow_ended]
      exact List.prefix_append _ _
    · exact List.prefix_refl _
  | endBlock =>
    simp only [call, endBlock_ended]
    exact List.prefix_refl _
  | publish =>
    simp only [call, publish_ended]
    exact List.prefix_refl _
  | _ => exact List.prefix_refl _

theorem ended_prefix_foldl (buffered : Bool) (calls : List Call) (s : Session) :
    s.ended <+: (calls.foldl (call buffered) s).ended := by
  induction calls generalizing s with
  | nil => exact List.prefix_refl _
  | cons c calls ih => exact (ended_prefix_call buffered s c).trans (ih (s.call buffered c))

/-- The rows at the server only grow. -/
theorem handed_prefix_call (buffered : Bool) (s : Session) (c : Call) :
    s.handed <+: (s.call buffered c).handed := by
  cases c with
  | endRow =>
    simp only [call, endRow, addRow, complete]
    cases s.row <;> cases s.block <;> cases buffered <;> simp
  | endBlock =>
    simp only [call, endBlock, complete]
    cases s.block <;> cases buffered <;> simp
  | publish =>
    simp only [call, publish]
    cases buffered <;> simp
  | _ => exact List.prefix_refl _

end Session

/-- The session after a trace of calls. -/
def session (buffered : Bool) (calls : List Call) : Session :=
  calls.foldl (Session.call buffered) .initial

theorem session_append (buffered : Bool) (xs ys : List Call) :
    session buffered (xs ++ ys) = ys.foldl (Session.call buffered) (session buffered xs) := by
  simp [session]

/-- The session only looks at the calls that are new. -/
theorem session_of_grown (buffered : Bool) {before after calls : List Call} (grown : after = before ++ calls) :
    session buffered after = calls.foldl (Session.call buffered) (session buffered before) := by
  rw [grown, session_append]

theorem handed_prefix_session (buffered : Bool) {xs ys : List Call} (begins : xs <+: ys) :
    (session buffered xs).handed <+: (session buffered ys).handed := by
  obtain ⟨more, rfl⟩ := begins
  rw [session_append]
  generalize session buffered xs = s
  induction more generalizing s with
  | nil => exact List.prefix_refl _
  | cons c more ih => exact (Session.handed_prefix_call buffered s c).trans (ih (s.call buffered c))

/-- No row is lost, doubled or overtaken: the rows that were ended are the ones
handed over, then those the writer holds, then those of the open block. A buffer
leaves nothing in the writer. -/
structure Session.Conserved (buffered : Bool) (s : Session) : Prop where
  rows : s.handed ++ s.held ++ s.openRows = s.ended
  queued : buffered → s.held = []

namespace Session

variable {buffered : Bool} {s : Session}

theorem conserved_complete {new : List Row} (noBlock : s.block = none)
    (rows : s.handed ++ s.held ++ new = s.ended) (queued : buffered → s.held = []) :
    (s.complete buffered new).Conserved buffered := by
  cases buffered with
  | false => exact ⟨by simpa [complete, openRows, noBlock] using rows, by simp⟩
  | true =>
    rw [queued rfl] at rows
    exact ⟨by simpa [complete, openRows, noBlock, queued rfl] using rows, by simpa [complete] using queued⟩

theorem conserved_addRow (conserved : s.Conserved buffered) (row : Row) :
    (s.addRow buffered row).Conserved buffered := by
  have rows := conserved.rows
  unfold addRow openRows at *
  cases block : s.block with
  | none =>
    rw [block, Option.getD_none, List.append_nil] at rows
    exact conserved_complete rfl (by simp [rows]) conserved.queued
  | some inBlock =>
    rw [block, Option.getD_some] at rows
    exact ⟨by simp [openRows, ← rows], conserved.queued⟩

theorem conserved_endRow (conserved : s.Conserved buffered) :
    (s.endRow buffered).Conserved buffered := by
  unfold endRow
  split
  · exact conserved_addRow conserved _
  · exact conserved

theorem conserved_endBlock (conserved : s.Conserved buffered) :
    (s.endBlock buffered).Conserved buffered := by
  have rows := conserved.rows
  unfold endBlock openRows at *
  cases block : s.block with
  | none => exact conserved
  | some inBlock =>
    rw [block, Option.getD_some] at rows
    exact conserved_complete rfl rows conserved.queued

theorem conserved_publish (conserved : s.Conserved buffered) :
    (s.publish buffered).Conserved buffered := by
  unfold publish
  split
  · exact conserved
  · rename_i unbuffered
    exact ⟨by simpa [openRows] using conserved.rows, fun buffer => absurd buffer unbuffered⟩

theorem conserved_call (conserved : s.Conserved buffered) (c : Call) :
    (s.call buffered c).Conserved buffered := by
  cases c with
  | startTransaction => exact ⟨by simpa [call, openRows] using conserved.rows, conserved.queued⟩
  | startRow => exact ⟨conserved.rows, conserved.queued⟩
  | setOperation operation => exact ⟨conserved.rows, conserved.queued⟩
  | set column => exact ⟨conserved.rows, conserved.queued⟩
  | endRow => exact conserved_endRow conserved
  | endBlock => exact conserved_endBlock conserved
  | publish => exact conserved_publish conserved
  | commit => exact conserved

end Session

theorem session_conserved (buffered : Bool) (calls : List Call) :
    (session buffered calls).Conserved buffered := by
  unfold session
  induction calls using List.reverseRecOn with
  | nil => exact ⟨rfl, fun _ => rfl⟩
  | append_singleton calls c ih =>
    rw [List.foldl_append]
    exact Session.conserved_call ih c

/-! ## Bracketing -/

/-- What a disciplined publisher keeps to: one block at a time, rows inside
blocks, and no block that is closed empty or with more than `limit` rows. -/
def bracketGuard (limit : Int) (s : Session) : Call → Prop
  | .startTransaction => s.block = none ∧ s.row = none
  | .startRow => s.block.isSome ∧ s.row = none
  | .setOperation _ | .set _ | .endRow => s.block.isSome ∧ s.row.isSome
  | .endBlock => s.row = none ∧ ∃ rows, s.block = some rows ∧ 1 ≤ rows.length ∧ rows.length ≤ limit
  | .publish | .commit => True

/-- A block is open after `startTransaction` and until `endBlock`. -/
theorem Session.block_isSome_call (buffered : Bool) (s : Session) (c : Call) :
    (s.call buffered c).block.isSome =
      match c with
      | .startTransaction => true
      | .endBlock => false
      | _ => s.block.isSome := by
  cases c with
  | endRow =>
    simp only [call, endRow]
    split
    · unfold addRow complete
      cases block : s.block with
      | none => cases buffered <;> simp
      | some rows => simp
    · rfl
  | endBlock =>
    simp only [call, endBlock, complete]
    cases block : s.block with
    | none => simp [block]
    | some rows => cases buffered <;> rfl
  | publish =>
    simp only [call, publish]
    split <;> rfl
  | _ => rfl

def Call.ofBlock : Call → Bool
  | .startTransaction | .endBlock => true
  | _ => false

def blockCalls (calls : List Call) : List Call := calls.filter Call.ofBlock

theorem blockCalls_append (xs ys : List Call) :
    blockCalls (xs ++ ys) = blockCalls xs ++ blockCalls ys := by
  simp [blockCalls]

theorem blockCalls_snoc (calls : List Call) (c : Call) :
    blockCalls (calls ++ [c]) = blockCalls calls ++ if c.ofBlock then [c] else [] := by
  rw [blockCalls_append]
  cases c <;> rfl

/-- Starts and ends taking turns, a start first. -/
def turns (n : Nat) : List Call :=
  (List.range n).map fun k => if k % 2 = 0 then .startTransaction else .endBlock

theorem turns_succ (n : Nat) :
    turns (n + 1) = turns n ++ [if n % 2 = 0 then .startTransaction else .endBlock] := by
  simp [turns, List.range_succ]

/-- In a bracketed trace starts and ends take turns, and a block is open after
an odd number of them. -/
theorem blockCalls_of_guarded {buffered : Bool} {limit : Int} (calls : List Call)
    (guarded : Guarded (Session.call buffered) (bracketGuard limit) .initial calls) :
    blockCalls calls = turns (blockCalls calls).length ∧
      (session buffered calls).block.isSome = decide ((blockCalls calls).length % 2 = 1) := by
  induction calls using List.reverseRecOn with
  | nil => exact ⟨rfl, rfl⟩
  | append_singleton calls c ih =>
    rw [guarded_append] at guarded
    obtain ⟨alternate, parity⟩ := ih guarded.1
    have allowed : bracketGuard limit (session buffered calls) c := guarded.2.1
    have after := Session.block_isSome_call buffered (session buffered calls) c
    rw [session_append, List.foldl_cons, List.foldl_nil, after]
    cases c with
    | startTransaction =>
      have even : (blockCalls calls).length % 2 = 0 := by
        rw [allowed.1, Option.isSome_none, eq_comm, decide_eq_false_iff_not] at parity
        omega
      have grown : blockCalls (calls ++ [.startTransaction]) =
          blockCalls calls ++ [.startTransaction] := blockCalls_snoc _ _
      rw [grown, List.length_append, List.length_singleton, turns_succ, if_pos even, ← alternate]
      exact ⟨rfl, by simp; omega⟩
    | endBlock =>
      have odd : (blockCalls calls).length % 2 = 1 := by
        obtain ⟨-, rows, block, -⟩ := allowed
        simpa [block] using parity
      have grown : blockCalls (calls ++ [.endBlock]) = blockCalls calls ++ [.endBlock] :=
        blockCalls_snoc _ _
      rw [grown, List.length_append, List.length_singleton, turns_succ, if_neg (by omega),
        ← alternate]
      exact ⟨rfl, by simp; omega⟩
    | _ =>
      rw [blockCalls_snoc]
      simpa [Call.ofBlock] using ⟨alternate, parity⟩

/-- Only starts and ends open and close blocks. -/
theorem block_isSome_foldl (buffered : Bool) (s : Session) (calls : List Call)
    (none : blockCalls calls = []) :
    (calls.foldl (Session.call buffered) s).block.isSome = s.block.isSome := by
  induction calls generalizing s with
  | nil => rfl
  | cons c calls ih =>
    unfold blockCalls at none
    rw [List.filter_eq_nil_iff] at none
    have rest : blockCalls calls = [] :=
      List.filter_eq_nil_iff.mpr fun d member => none d (List.mem_cons_of_mem c member)
    have first := none c List.mem_cons_self
    rw [List.foldl_cons, ih _ rest, Session.block_isSome_call]
    cases c <;> simp_all [Call.ofBlock]

/-- Without a start there is no block. -/
theorem block_of_no_blockCalls (buffered : Bool) {calls : List Call}
    (none : blockCalls calls = []) : (session buffered calls).block = Option.none := by
  rw [← Option.not_isSome_iff_eq_none, session, block_isSome_foldl buffered _ calls none]
  simp [Session.initial]

/-! ## The default mode -/

def heeded (buffered : Bool) (c : Call) : Bool := !(buffered && c.ofBlock)

/-- The session after a trace of calls in the default mode. -/
def delivered (buffered : Bool) (calls : List Call) : Session :=
  session buffered (calls.filter (heeded buffered))

/-- Without a buffer all calls are heeded. -/
theorem delivered_unbuffered (calls : List Call) : delivered false calls = session false calls := by
  have all : calls.filter (heeded false) = calls := List.filter_eq_self.mpr fun _ _ => rfl
  rw [delivered, all]

namespace Session

variable (buffered : Bool) {s t : Session}

/-- Which rows are written and ended is not a matter of blocks: the calls of blocks
leave it as it is, and the other calls do the same to it whether one is open. -/
theorem written_ofBlock {c : Call} (ofBlock : c.ofBlock) (s : Session) :
    (s.call buffered c).row = s.row ∧ (s.call buffered c).ended = s.ended := by
  cases c with
  | startTransaction => exact ⟨rfl, rfl⟩
  | endBlock => exact ⟨endBlock_row buffered s, endBlock_ended buffered s⟩
  | _ => cases ofBlock

theorem written_call (row : s.row = t.row) (ended : s.ended = t.ended) (c : Call) :
    (s.call buffered c).row = (t.call buffered c).row ∧
      (s.call buffered c).ended = (t.call buffered c).ended := by
  cases c with
  | endRow =>
    simp only [call, endRow, row]
    cases written : t.row with
    | none => exact ⟨by simp [row, written], ended⟩
    | some r => exact ⟨by simp, by simp [ended]⟩
  | _ => simp [call, row, ended]

end Session

theorem delivered_written (buffered : Bool) (calls : List Call) :
    (delivered buffered calls).row = (session buffered calls).row ∧
      (delivered buffered calls).ended = (session buffered calls).ended := by
  unfold delivered
  induction calls using List.reverseRecOn with
  | nil => exact ⟨rfl, rfl⟩
  | append_singleton calls c ih =>
    rw [List.filter_append, session_append, session_append, List.foldl_cons, List.foldl_nil]
    cases heeds : heeded buffered c with
    | true =>
      rw [List.filter_cons_of_pos heeds]
      exact Session.written_call buffered ih.1 ih.2 c
    | false =>
      have ofBlock : c.ofBlock := by
        cases block : c.ofBlock with
        | true => rfl
        | false => simp [heeded, block] at heeds
      obtain ⟨row, ended⟩ := Session.written_ofBlock buffered ofBlock (session buffered calls)
      rw [List.filter_cons_of_neg (by simp [heeds]), row, ended]
      exact ih

theorem delivered_ended (buffered : Bool) (calls : List Call) :
    (delivered buffered calls).ended = (session buffered calls).ended := (delivered_written buffered calls).2

theorem delivered_conserved (buffered : Bool) (calls : List Call) :
    (delivered buffered calls).Conserved buffered := session_conserved buffered _

/-- What was handed over is a first part of what was written. -/
theorem Session.Conserved.handed_begins {buffered : Bool} {s : Session} (conserved : s.Conserved buffered) :
    s.handed <+: s.ended := by
  rw [← conserved.rows, List.append_assoc]
  exact List.prefix_append _ _

theorem delivered_prefix (buffered : Bool) (calls : List Call) :
    (delivered buffered calls).handed <+: (session buffered calls).ended :=
  delivered_ended buffered calls ▸ (delivered_conserved buffered calls).handed_begins

theorem handed_prefix_delivered (buffered : Bool) {xs ys : List Call} (begins : xs <+: ys) :
    (delivered buffered xs).handed <+: (delivered buffered ys).handed :=
  handed_prefix_session buffered (begins.filter _)

/-- With a buffer each row is queued when it is ended. -/
theorem delivered_buffered (calls : List Call) :
    (delivered true calls).handed = (session true calls).ended ∧ (delivered true calls).openRows = [] := by
  have noCalls : blockCalls (calls.filter (heeded true)) = [] := by
    rw [blockCalls, List.filter_filter, List.filter_eq_nil_iff]
    intro c _
    cases c <;> simp [Call.ofBlock, heeded]
  have noBlock : (delivered true calls).openRows = [] := by
    rw [Session.openRows, delivered, block_of_no_blockCalls true noCalls, Option.getD_none]
  have conserved := delivered_conserved true calls
  have rows := conserved.rows
  rw [conserved.queued rfl, noBlock, List.append_nil, List.append_nil, delivered_ended] at rows
  exact ⟨rows, noBlock⟩

end StreamingPoc.Esp
