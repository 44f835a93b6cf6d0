import StreamingPoc.Esp.Sdk

/-!
# Publishing in blocks

What `DbagPublisher.publish` and `RTTClient.doPublish` have in common: the flag
`inblock`, the calls, and the body of the for loop. With a positive block size
rows are written in blocks, a block is ended where the index is at a border, and
`publish` is called for what is complete where the buffer size is 0. The columns
of the row and the border are their own.
-/
namespace StreamingPoc.Esp

structure BlockWriter where
  inblock : Bool
  calls : List Call
  deriving DecidableEq, Repr

namespace BlockWriter

def initial : BlockWriter := { inblock := false, calls := [] }

def issue (w : BlockWriter) (calls : List Call) : BlockWriter := { w with calls := w.calls ++ calls }

def startTransaction (w : BlockWriter) : BlockWriter := { w.issue [.startTransaction] with inblock := true }

def writeRow (columns : List Column) (w : BlockWriter) : BlockWriter := w.issue (writeCalls columns)

def publish (bufferSize : Int32) (w : BlockWriter) : BlockWriter :=
  if bufferSize = 0 then w.issue [.publish] else w

def endBlock (bufferSize : Int32) (w : BlockWriter) : BlockWriter :=
  { (w.issue [.endBlock]).publish bufferSize with inblock := false }

/-- The body of the for loop. -/
def row (blockSize bufferSize : Int32) (border : Bool) (columns : List Column) (w : BlockWriter) :
    BlockWriter :=
  let w := if 0 < blockSize ∧ ¬ w.inblock then w.startTransaction else w
  let w := w.writeRow columns
  if 0 < blockSize then
    if w.inblock ∧ border then w.endBlock bufferSize else w
  else w.publish bufferSize

end BlockWriter

/-! ## The calls of a pass -/

/-- The start of a block where none is open. -/
def openCalls (inblock : Bool) : List Call := if inblock then [] else [.startTransaction]

/-- The publishing after a completed block or row. -/
def sendCalls (bufferSize : Int32) : List Call := if bufferSize = 0 then [.publish] else []

namespace BlockWriter

variable (blockSize bufferSize : Int32) (border : Bool) (columns : List Column) (w : BlockWriter)

@[simp] theorem startTransaction_inblock : w.startTransaction.inblock = true := rfl

@[simp] theorem startTransaction_calls : w.startTransaction.calls = w.calls ++ [.startTransaction] := rfl

@[simp] theorem writeRow_inblock : (w.writeRow columns).inblock = w.inblock := rfl

@[simp] theorem writeRow_calls : (w.writeRow columns).calls = w.calls ++ writeCalls columns := rfl

@[simp] theorem publish_inblock : (w.publish bufferSize).inblock = w.inblock := by
  unfold publish
  split <;> rfl

@[simp] theorem publish_calls : (w.publish bufferSize).calls = w.calls ++ sendCalls bufferSize := by
  unfold publish sendCalls
  split
  · rfl
  · exact (List.append_nil _).symm

@[simp] theorem endBlock_inblock : (w.endBlock bufferSize).inblock = false := rfl

@[simp] theorem endBlock_calls :
    (w.endBlock bufferSize).calls = w.calls ++ .endBlock :: sendCalls bufferSize := by
  simp [endBlock, issue]

/-- The three kinds of a pass: without blocks; a row that leaves its block open;
a row that closes it. -/
inductive Pass (v : BlockWriter) : Prop where
  | single (noBlocks : ¬ 0 < blockSize) (flag : v.inblock = w.inblock)
      (calls : v.calls = w.calls ++ (writeCalls columns ++ sendCalls bufferSize))
  | stay (blocks : 0 < blockSize) (inside : border = false) (flag : v.inblock = true)
      (calls : v.calls = w.calls ++ (openCalls w.inblock ++ writeCalls columns))
  | close (blocks : 0 < blockSize) (atBorder : border = true) (flag : v.inblock = false)
      (calls : v.calls = w.calls ++
        (openCalls w.inblock ++ writeCalls columns ++ .endBlock :: sendCalls bufferSize))

theorem row_cases : Pass blockSize bufferSize border columns w (w.row blockSize bufferSize border columns) := by
  by_cases blocks : 0 < blockSize
  · cases atBorder : border with
    | true =>
      apply Pass.close blocks rfl
      · cases inblock : w.inblock <;> simp [row, blocks, inblock]
      · cases inblock : w.inblock <;> simp [row, blocks, inblock, openCalls]
    | false =>
      apply Pass.stay blocks rfl
      · cases inblock : w.inblock <;> simp [row, blocks, inblock]
      · cases inblock : w.inblock <;> simp [row, blocks, inblock, openCalls]
  · apply Pass.single blocks
    · simp [row, blocks]
    · simp [row, blocks]

end BlockWriter

/-! ## The session over the calls of a pass -/

namespace Session

variable (buffered : Bool) (bufferSize : Int32) (columns : List Column) (s : Session)

/-- The publishing moves what is held to the server and changes no more. -/
theorem foldl_sendCalls :
    (sendCalls bufferSize).foldl (call buffered) s = if bufferSize = 0 then s.publish buffered else s := by
  unfold sendCalls
  split <;> rfl

@[simp] theorem sendCalls_row : ((sendCalls bufferSize).foldl (call buffered) s).row = s.row := by
  rw [foldl_sendCalls]
  split
  · exact publish_row buffered s
  · rfl

@[simp] theorem sendCalls_block : ((sendCalls bufferSize).foldl (call buffered) s).block = s.block := by
  rw [foldl_sendCalls]
  split
  · exact publish_block buffered s
  · rfl

@[simp] theorem sendCalls_ended : ((sendCalls bufferSize).foldl (call buffered) s).ended = s.ended := by
  rw [foldl_sendCalls]
  split
  · exact publish_ended buffered s
  · rfl

/-- A start where no block is open. -/
theorem foldl_openCalls {flag : Bool} {s : Session} (right : flag = s.block.isSome) :
    (openCalls flag).foldl (call buffered) s = { s with block := some s.openRows } := by
  subst right
  cases block : s.block with
  | none => simp [openCalls, call, openRows, block]
  | some rows =>
    rcases s with ⟨_, _, _, _, _⟩
    simp only at block
    simp [openCalls, openRows, block]

@[simp] theorem openCalls_ended (flag : Bool) : ((openCalls flag).foldl (call buffered) s).ended = s.ended := by
  cases flag <;> rfl

/-- A row inside a block, which is started before where none is open. -/
theorem foldl_row_in_block {flag : Bool} {s : Session} (right : flag = s.block.isSome) :
    (openCalls flag ++ writeCalls columns).foldl (call buffered) s =
      { s with
        row := none
        block := some (s.openRows ++ [{ operation := some .insert, columns }])
        ended := s.ended ++ [{ operation := some .insert, columns }] } := by
  rw [List.foldl_append, foldl_openCalls _ right, foldl_writeCalls]
  exact addRow_inside _ rfl _

end Session

/-- Whatever the sizes are, a pass ends one row. -/
theorem BlockWriter.ended_row (buffered : Bool) (blockSize bufferSize : Int32) (border : Bool)
    (columns : List Column) (w : BlockWriter) :
    (session buffered (w.row blockSize bufferSize border columns).calls).ended =
      (session buffered w.calls).ended ++ [{ operation := some .insert, columns }] := by
  cases row_cases blockSize bufferSize border columns w with
  | single noBlocks flag calls =>
    rw [session_of_grown buffered calls, List.foldl_append, Session.sendCalls_ended, Session.foldl_writeCalls,
      Session.addRow_ended]
  | stay blocks inside flag calls =>
    rw [session_of_grown buffered calls, List.foldl_append, Session.foldl_writeCalls, Session.addRow_ended,
      Session.openCalls_ended]
  | close blocks atBorder flag calls =>
    rw [session_of_grown buffered calls, List.foldl_append, List.foldl_cons, Session.sendCalls_ended,
      Session.call, Session.endBlock_ended, List.foldl_append, Session.foldl_writeCalls, Session.addRow_ended,
      Session.openCalls_ended]

end StreamingPoc.Esp
