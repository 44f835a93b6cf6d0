import Mathlib.Logic.Function.Basic
import StreamingPoc.Lib.Transition

/-!
# EventReceiver.StupidPool

`EventReceiver.java:184-217`. Clients run `getBA` and `returnBA` on one pool;
one step is one operation on the `AtomicReferenceArray` (`get(i)` or
`compareAndSet(i, ..)`) together with the local code up to the next one. The
static counters `success` and `fail` are plain ints without synchronisation, so
their increments are a read and a write of their own. A `byte[]` is its
identity, its content is never read by the pool. A client passes `returnBA` only
a buffer it holds; that is a promise of the caller, not a check of the code.
-/
namespace StreamingPoc.Netfeed.StupidPool

open StreamingPoc.Lib

abbrev BA := Nat

/-- Where a client is. The loop heads carry the loop index, the program points
before a `compareAndSet` the slot it will try. -/
inductive Pc (size : Nat) where
  | idle
  | returnLoop (ba : BA) (i : Nat)
  | returnCas (ba : BA) (i : Fin size)
  | getLoop (i : Nat)
  | getCas (i : Fin size) (ba : BA)
  | took (ba : BA)
  | tookWrite (ba : BA) (read : Int32)
  | missed
  | missedWrite (read : Int32)
  | allocate
  deriving DecidableEq, Repr

/-- A client's program point and the buffers it holds between its calls. -/
structure Local (size : Nat) where
  pc : Pc size
  held : List BA
  deriving DecidableEq, Repr

/-- What all clients share. `fresh` is the identity of the next `new byte[1500]`,
`printed` the lines written every 100000 misses. -/
structure Shared (size : Nat) where
  pool : Fin size → Option BA
  success : Int32
  fail : Int32
  printed : List (Int32 × Int32)
  fresh : BA

structure State (Client : Type) (size : Nat) where
  shared : Shared size
  clients : Client → Local size

/-- `getBA` and `returnBA` begin a call, `go` is the next atomic step of it. -/
inductive Move where
  | getBA
  | returnBA (ba : BA)
  | go
  deriving DecidableEq, Repr

/-- `AtomicReferenceArray.compareAndSet`: `none` is its `false`. -/
def Shared.compareAndSet {size : Nat} (sh : Shared size) (i : Fin size)
    (expect update : Option BA) : Option (Shared size) :=
  if sh.pool i = expect then some { sh with pool := Function.update sh.pool i update } else none

def clientStep {size : Nat} (sh : Shared size) (me : Local size) (move : Move) :
    Option (Shared size × Local size) :=
  match me.pc, move with
  | .idle, .getBA => some (sh, { me with pc := .getLoop 0 })
  | .idle, .returnBA ba =>
    if ba ∈ me.held then some (sh, { pc := .returnLoop ba 0, held := me.held.erase ba }) else none
  | .returnLoop ba i, .go =>
    if h : i < size then
      match sh.pool ⟨i, h⟩ with
      | none => some (sh, { me with pc := .returnCas ba ⟨i, h⟩ })
      | some _ => some (sh, { me with pc := .returnLoop ba (i + 1) })
    else some (sh, { me with pc := .idle })
  | .returnCas ba i, .go =>
    match sh.compareAndSet i none (some ba) with
    | some sh' => some (sh', { me with pc := .idle })
    | none => some (sh, { me with pc := .returnLoop ba (i + 1) })
  | .getLoop i, .go =>
    if h : i < size then
      match sh.pool ⟨i, h⟩ with
      | some ba => some (sh, { me with pc := .getCas ⟨i, h⟩ ba })
      | none => some (sh, { me with pc := .getLoop (i + 1) })
    else some (sh, { me with pc := .missed })
  | .getCas i ba, .go =>
    match sh.compareAndSet i (some ba) none with
    | some sh' => some (sh', { me with pc := .took ba })
    | none => some (sh, { me with pc := .getLoop (i + 1) })
  -- success++ and fail++ on the unsynchronised statics
  | .took ba, .go => some (sh, { me with pc := .tookWrite ba sh.success })
  | .tookWrite ba read, .go =>
    some ({ sh with success := read + 1 }, { pc := .idle, held := ba :: me.held })
  | .missed, .go => some (sh, { me with pc := .missedWrite sh.fail })
  | .missedWrite read, .go => some ({ sh with fail := read + 1 }, { me with pc := .allocate })
  | .allocate, .go =>
    let printed := if sh.fail % 100000 = 0 then sh.printed ++ [(sh.success, sh.fail)] else sh.printed
    some ({ sh with printed := printed, fresh := sh.fresh + 1 },
      { pc := .idle, held := sh.fresh :: me.held })
  | _, _ => none

variable {Client : Type} [DecidableEq Client] {size : Nat}

def step (s : State Client size) (act : Client × Move) : Option (State Client size) :=
  (clientStep s.shared (s.clients act.1) act.2).map fun next =>
    { shared := next.1, clients := Function.update s.clients act.1 next.2 }

/-- `new StupidPool(size)`: all slots null, nobody holds a buffer. -/
def initial (Client : Type) (size : Nat) : State Client size where
  shared := { pool := fun _ => none, success := 0, fail := 0, printed := [], fresh := 0 }
  clients := fun _ => { pc := .idle, held := [] }

@[simp] theorem compareAndSet_eq_some {sh sh' : Shared size} {i : Fin size}
    {expect update : Option BA} :
    sh.compareAndSet i expect update = some sh' ↔
      sh.pool i = expect ∧ { sh with pool := Function.update sh.pool i update } = sh' := by
  simp [Shared.compareAndSet]

@[simp] theorem compareAndSet_eq_none {sh : Shared size} {i : Fin size}
    {expect update : Option BA} :
    sh.compareAndSet i expect update = none ↔ sh.pool i ≠ expect := by
  simp [Shared.compareAndSet]

/-- Everything one step of a client can do, with the guard under which it does it. -/
inductive LocalStep : Shared size → Local size → Move → Shared size → Local size → Prop where
  | beginGet (sh : Shared size) (held : List BA) :
      LocalStep sh ⟨.idle, held⟩ .getBA sh ⟨.getLoop 0, held⟩
  | beginReturn (sh : Shared size) (held : List BA) (ba : BA) (holds : ba ∈ held) :
      LocalStep sh ⟨.idle, held⟩ (.returnBA ba) sh ⟨.returnLoop ba 0, held.erase ba⟩
  | returnFree (sh : Shared size) (held : List BA) (ba : BA) (i : Fin size)
      (free : sh.pool i = none) :
      LocalStep sh ⟨.returnLoop ba i, held⟩ .go sh ⟨.returnCas ba i, held⟩
  | returnSkip (sh : Shared size) (held : List BA) (ba other : BA) (i : Fin size)
      (full : sh.pool i = some other) :
      LocalStep sh ⟨.returnLoop ba i, held⟩ .go sh ⟨.returnLoop ba (i + 1), held⟩
  | returnDrop (sh : Shared size) (held : List BA) (ba : BA) (i : Nat) (past : size ≤ i) :
      LocalStep sh ⟨.returnLoop ba i, held⟩ .go sh ⟨.idle, held⟩
  | returnStore (sh : Shared size) (held : List BA) (ba : BA) (i : Fin size)
      (free : sh.pool i = none) :
      LocalStep sh ⟨.returnCas ba i, held⟩ .go
        { sh with pool := Function.update sh.pool i (some ba) } ⟨.idle, held⟩
  | returnLost (sh : Shared size) (held : List BA) (ba : BA) (i : Fin size)
      (taken : sh.pool i ≠ none) :
      LocalStep sh ⟨.returnCas ba i, held⟩ .go sh ⟨.returnLoop ba (i + 1), held⟩
  | getFull (sh : Shared size) (held : List BA) (ba : BA) (i : Fin size)
      (full : sh.pool i = some ba) :
      LocalStep sh ⟨.getLoop i, held⟩ .go sh ⟨.getCas i ba, held⟩
  | getSkip (sh : Shared size) (held : List BA) (i : Fin size) (free : sh.pool i = none) :
      LocalStep sh ⟨.getLoop i, held⟩ .go sh ⟨.getLoop (i + 1), held⟩
  | getMiss (sh : Shared size) (held : List BA) (i : Nat) (past : size ≤ i) :
      LocalStep sh ⟨.getLoop i, held⟩ .go sh ⟨.missed, held⟩
  | getTake (sh : Shared size) (held : List BA) (ba : BA) (i : Fin size)
      (full : sh.pool i = some ba) :
      LocalStep sh ⟨.getCas i ba, held⟩ .go
        { sh with pool := Function.update sh.pool i none } ⟨.took ba, held⟩
  | getLost (sh : Shared size) (held : List BA) (ba : BA) (i : Fin size)
      (changed : sh.pool i ≠ some ba) :
      LocalStep sh ⟨.getCas i ba, held⟩ .go sh ⟨.getLoop (i + 1), held⟩
  | readSuccess (sh : Shared size) (held : List BA) (ba : BA) :
      LocalStep sh ⟨.took ba, held⟩ .go sh ⟨.tookWrite ba sh.success, held⟩
  | writeSuccess (sh : Shared size) (held : List BA) (ba : BA) (read : Int32) :
      LocalStep sh ⟨.tookWrite ba read, held⟩ .go { sh with success := read + 1 }
        ⟨.idle, ba :: held⟩
  | readFail (sh : Shared size) (held : List BA) :
      LocalStep sh ⟨.missed, held⟩ .go sh ⟨.missedWrite sh.fail, held⟩
  | writeFail (sh : Shared size) (held : List BA) (read : Int32) :
      LocalStep sh ⟨.missedWrite read, held⟩ .go { sh with fail := read + 1 } ⟨.allocate, held⟩
  | create (sh : Shared size) (held : List BA) (printed : List (Int32 × Int32)) :
      LocalStep sh ⟨.allocate, held⟩ .go { sh with printed := printed, fresh := sh.fresh + 1 }
        ⟨.idle, sh.fresh :: held⟩

theorem clientStep_cases {sh sh' : Shared size} {me me' : Local size} {move : Move}
    (done : clientStep sh me move = some (sh', me')) : LocalStep sh me move sh' me' := by
  obtain ⟨pc, held⟩ := me
  unfold clientStep at done
  split at done
  · rename_i at_idle
    obtain rfl : pc = .idle := at_idle
    cases done
    exact .beginGet _ _
  · rename_i ba at_idle
    obtain rfl : pc = .idle := at_idle
    split at done
    · rename_i holds
      cases done
      exact .beginReturn _ _ _ holds
    · cases done
  · rename_i ba i at_loop
    obtain rfl : pc = .returnLoop ba i := at_loop
    split at done
    · rename_i below
      split at done
      · rename_i free
        cases done
        exact .returnFree _ _ _ ⟨i, below⟩ free
      · rename_i other full
        cases done
        exact .returnSkip _ _ _ other ⟨i, below⟩ full
    · rename_i past
      cases done
      exact .returnDrop _ _ _ _ (Nat.le_of_not_lt past)
  · rename_i ba i at_cas
    obtain rfl : pc = .returnCas ba i := at_cas
    split at done
    · rename_i won
      obtain ⟨free, rfl⟩ := compareAndSet_eq_some.mp won
      cases done
      exact .returnStore _ _ _ _ free
    · rename_i lost
      cases done
      exact .returnLost _ _ _ _ (compareAndSet_eq_none.mp lost)
  · rename_i i at_loop
    obtain rfl : pc = .getLoop i := at_loop
    split at done
    · rename_i below
      split at done
      · rename_i ba full
        cases done
        exact .getFull _ _ _ ⟨i, below⟩ full
      · rename_i free
        cases done
        exact .getSkip _ _ ⟨i, below⟩ free
    · rename_i past
      cases done
      exact .getMiss _ _ _ (Nat.le_of_not_lt past)
  · rename_i i ba at_cas
    obtain rfl : pc = .getCas i ba := at_cas
    split at done
    · rename_i won
      obtain ⟨full, rfl⟩ := compareAndSet_eq_some.mp won
      cases done
      exact .getTake _ _ _ _ full
    · rename_i lost
      cases done
      exact .getLost _ _ _ _ (compareAndSet_eq_none.mp lost)
  · rename_i ba at_took
    obtain rfl : pc = .took ba := at_took
    cases done
    exact .readSuccess _ _ _
  · rename_i ba read at_write
    obtain rfl : pc = .tookWrite ba read := at_write
    cases done
    exact .writeSuccess _ _ _ _
  · rename_i at_missed
    obtain rfl : pc = .missed := at_missed
    cases done
    exact .readFail _ _
  · rename_i read at_write
    obtain rfl : pc = .missedWrite read := at_write
    cases done
    exact .writeFail _ _ _
  · rename_i at_allocate
    obtain rfl : pc = .allocate := at_allocate
    cases done
    exact .create _ _ _
  · cases done

/-- One step of the system is one step of the acting client; the other clients
stay where they are. -/
theorem step_cases {s t : State Client size} {act : Client × Move} (move : step s act = some t) :
    LocalStep s.shared (s.clients act.1) act.2 t.shared (t.clients act.1) ∧
      ∀ d, d ≠ act.1 → t.clients d = s.clients d := by
  simp only [step, Option.map_eq_some_iff, Prod.exists] at move
  obtain ⟨sh, me, done, rfl⟩ := move
  refine ⟨?_, fun d other => Function.update_of_ne other _ _⟩
  simpa using clientStep_cases done

end StreamingPoc.Netfeed.StupidPool
