import Mathlib.Data.Set.Insert
import StreamingPoc.Lib.Linearizable
import StreamingPoc.Netfeed.StupidPoolOwnership

/-!
# StupidPool as an atomic object

What the pool is for: a bag of buffers. `get` takes some buffer out or gives a new
one, `put` adds a buffer or loses it. The calls of `getBA` and `returnBA` scan the
slots one by one while others change them, yet each takes effect in one moment: at
its winning `compareAndSet`, or where it gives up.
-/
namespace StreamingPoc.Netfeed.StupidPool

open StreamingPoc.Lib

/-- `known` are the buffers that were ever given out. -/
structure Bag where
  pooled : Set BA
  known : Set BA

inductive PoolOp where
  | get
  | put (ba : BA)
  deriving DecidableEq, Repr

inductive PoolResult where
  | got (ba : BA)
  | returned
  deriving DecidableEq, Repr

inductive Applies : Bag → PoolOp → PoolResult → Bag → Prop where
  | take (bag : Bag) (ba : BA) (pooled : ba ∈ bag.pooled) :
      Applies bag .get (.got ba) { bag with pooled := bag.pooled \ {ba} }
  | create (bag : Bag) (ba : BA) (new : ba ∉ bag.known) :
      Applies bag .get (.got ba) { bag with known := insert ba bag.known }
  | put (bag : Bag) (ba : BA) : Applies bag (.put ba) .returned { bag with pooled := insert ba bag.pooled }
  | lose (bag : Bag) (ba : BA) : Applies bag (.put ba) .returned bag

def Bag.empty : Bag := { pooled := ∅, known := ∅ }

/-! ## Histories -/

variable {Client : Type} [DecidableEq Client] {size : Nat}

/-- What a call returns that ends with the next step. -/
def Pc.result (fresh : BA) : Pc size → PoolResult
  | .tookWrite ba _ => .got ba
  | .allocate => .got fresh
  | _ => .returned

/-- The call or the return that a step of client `c` is. -/
def visible (c : Client) (sh : Shared size) (me : Local size) (move : Move) (me' : Local size) :
    List (Item Client PoolOp PoolResult) :=
  match move with
  | .getBA => [.call c .get]
  | .returnBA ba => [.call c (.put ba)]
  | .go => if me'.pc = .idle then [.ret c (me.pc.result sh.fresh)] else []

/-- The pool with the calls and returns so far, which no step reads. -/
structure Recorded (Client : Type) (size : Nat) where
  state : State Client size
  history : List (Item Client PoolOp PoolResult)

def recordedStep (s : Recorded Client size) (act : Client × Move) : Option (Recorded Client size) :=
  (step s.state act).map fun t =>
    let now := visible act.1 s.state.shared (s.state.clients act.1) act.2 (t.clients act.1)
    { state := t, history := s.history ++ now }

def Recorded.initial (Client : Type) (size : Nat) : Recorded Client size :=
  { state := StupidPool.initial Client size, history := [] }

/-! ## Refinement -/

/-- How far a call is. -/
def Pc.phase : Pc size → Phase PoolOp PoolResult
  | .idle => .idle
  | .returnLoop ba _ | .returnCas ba _ => .called (.put ba)
  | .getLoop _ | .getCas _ _ | .missed | .missedWrite _ | .allocate => .called .get
  | .took ba | .tookWrite ba _ => .done (.got ba)

def Shared.bag (sh : Shared size) : Bag :=
  { pooled := { ba | ∃ i, sh.pool i = some ba }, known := { ba | ba < sh.fresh } }

theorem bag_store {sh : Shared size} {i : Fin size} {ba : BA} (free : sh.pool i = none) :
    ({ sh with pool := Function.update sh.pool i (some ba) } : Shared size).bag =
      { sh.bag with pooled := insert ba sh.bag.pooled } := by
  unfold Shared.bag
  congr 1
  ext x
  simp only [Set.mem_ofPred_eq, Set.mem_insert_iff]
  constructor
  · rintro ⟨j, at_j⟩
    by_cases here : j = i
    · rw [here, Function.update_self, Option.some.injEq] at at_j
      exact .inl at_j.symm
    · rw [Function.update_of_ne here] at at_j
      exact .inr ⟨j, at_j⟩
  · rintro (rfl | ⟨j, at_j⟩)
    · exact ⟨i, Function.update_self ..⟩
    · have other : j ≠ i := by
        rintro rfl
        rw [free] at at_j
        cases at_j
      exact ⟨j, by rw [Function.update_of_ne other, at_j]⟩

/-- A buffer is in one slot at most, so the winner empties the pool of it. -/
theorem bag_take {sh : Shared size} {i : Fin size} {ba : BA} (full : sh.pool i = some ba)
    (once : ∀ j, sh.pool j = some ba → j = i) :
    ({ sh with pool := Function.update sh.pool i none } : Shared size).bag =
      { sh.bag with pooled := sh.bag.pooled \ {ba} } := by
  unfold Shared.bag
  congr 1
  ext x
  simp only [Set.mem_ofPred_eq, Set.mem_sdiff, Set.mem_singleton_iff]
  constructor
  · rintro ⟨j, at_j⟩
    by_cases here : j = i
    · rw [here, Function.update_self] at at_j
      cases at_j
    · rw [Function.update_of_ne here] at at_j
      refine ⟨⟨j, at_j⟩, ?_⟩
      rintro rfl
      exact here (once j at_j)
  · rintro ⟨⟨j, at_j⟩, different⟩
    have other : j ≠ i := by
      rintro rfl
      rw [full] at at_j
      exact different (Option.some.inj at_j).symm
    exact ⟨j, by rw [Function.update_of_ne other, at_j]⟩

theorem bag_create (sh : Shared size) (printed : List (Int32 × Int32)) :
    ({ sh with printed := printed, fresh := sh.fresh + 1 } : Shared size).bag =
      { sh.bag with known := insert sh.fresh sh.bag.known } := by
  unfold Shared.bag
  congr 1
  ext x
  exact Nat.lt_succ_iff_lt_or_eq.trans or_comm

/-- Effects are placed in the history, and the bag and the phases are what the state shows. -/
def Explained (s : Recorded Client size) : Prop :=
  ∃ items, Explains Applies Bag.empty s.history items s.state.shared.bag fun c => (s.state.clients c).pc.phase

theorem phases_update {s t : State Client size} {c : Client} (others : ∀ d, d ≠ c → t.clients d = s.clients d) :
    (fun d => (t.clients d).pc.phase) =
      Function.update (fun d => (s.clients d).pc.phase) c (t.clients c).pc.phase := by
  funext d
  by_cases mine : d = c
  · rw [mine, Function.update_self]
  · rw [Function.update_of_ne mine, others d mine]

/-- The winning `compareAndSet` of `getBA` and the end of every other call are where
a call takes effect; the buffer taken is in no other slot. -/
theorem LocalStep.explains {c : Client} {sh sh' : Shared size} {me me' : Local size} {move : Move}
    {history items : List (Item Client PoolOp PoolResult)} {phases : Client → Phase PoolOp PoolResult}
    (done : LocalStep sh me move sh' me')
    (explains : Explains Applies Bag.empty history items sh.bag phases) (mine : phases c = me.pc.phase)
    (once : ∀ ba i j, sh.pool i = some ba → sh.pool j = some ba → j = i) :
    ∃ items', Explains Applies Bag.empty (history ++ visible c sh me move me') items' sh'.bag
      (Function.update phases c me'.pc.phase) := by
  cases done with
  | beginGet held => exact ⟨_, explains.call mine .get⟩
  | beginReturn held ba holds => exact ⟨_, explains.call mine (.put ba)⟩
  | returnDrop held ba i past => exact explains.finish mine (.lose sh.bag ba)
  | returnStore held ba i free =>
    rw [bag_store free]
    exact explains.finish mine (.put sh.bag ba)
  | getTake held ba i full =>
    rw [bag_take full (once ba i · full)]
    rw [show visible c sh ⟨.getCas i ba, held⟩ .go ⟨.took ba, held⟩ = [] from rfl, List.append_nil]
    exact ⟨_, explains.effect mine (.take sh.bag ba ⟨i, full⟩)⟩
  | writeSuccess held ba read => exact ⟨_, explains.ret mine⟩
  | create held printed =>
    rw [bag_create]
    exact explains.finish mine (.create sh.bag sh.fresh (Nat.lt_irrefl sh.fresh))
  | _ =>
    refine ⟨items, ?_⟩
    rw [Function.update_eq_self_iff.mpr mine.symm]
    exact (List.append_nil history).symm ▸ explains

theorem explained_step {s t : Recorded Client size} {act : Client × Move}
    (reach : Reachable step (StupidPool.initial Client size) s.state) (explained : Explained s)
    (move : recordedStep s act = some t) : Explained t := by
  obtain ⟨state, moved, rfl⟩ := Option.map_eq_some_iff.mp move
  obtain ⟨items, explains⟩ := explained
  obtain ⟨o, -, impl⟩ := reachable_refines reach
  obtain ⟨mine, others⟩ := step_cases moved
  unfold Explained
  rw [phases_update others]
  refine mine.explains explains rfl fun ba i j at_i at_j => ?_
  exact Place.slot.inj (impl.tracks.exclusive (b := ba) (p := .slot j) (q := .slot i) at_j at_i)

theorem explained_initial : Explained (Recorded.initial Client size) := by
  refine ⟨[], ?_⟩
  have nothing : (StupidPool.initial Client size).shared.bag = Bag.empty := by
    unfold Shared.bag Bag.empty
    congr 1
    · ext ba
      exact ⟨fun ⟨_, at_i⟩ => (Option.some_ne_none ba at_i.symm).elim, False.elim⟩
    · ext ba
      exact ⟨Nat.not_lt_zero ba, False.elim⟩
  rw [Recorded.initial, nothing]
  exact .start

/-- Whatever the calls of the clients do to each other's scans, they get the answers
of a bag used by one client at a time, in an order that respects which call ended
before which began. -/
theorem calls_linearizable {s : Recorded Client size} (reach : Reachable recordedStep (.initial Client size) s) :
    Linearizable Applies Bag.empty s.history := by
  have kept := reach.invariant
    (fun s => Reachable step (StupidPool.initial Client size) s.state ∧ Explained s)
    ⟨.start, explained_initial⟩ fun s act t before move => by
      obtain ⟨state, moved, same⟩ := Option.map_eq_some_iff.mp move
      have reached : t.state = state := congrArg Recorded.state same.symm
      exact ⟨reached ▸ before.1.next act moved, explained_step before.1 before.2 move⟩
  obtain ⟨-, items, explains⟩ := kept
  exact explains.linearizable

theorem calls_linearizable_aba :
    ∃ s, exec recordedStep (.initial Bool 1) abaSchedule = some s ∧
      s.history = [.call false .get, .ret false (.got 0), .call false (.put 0), .ret false .returned,
        .call true .get, .call false .get, .ret false (.got 0), .call false (.put 0), .ret false .returned] ∧
      Linearizable Applies Bag.empty s.history :=
  ⟨_, rfl, by decide, calls_linearizable (.of_exec abaSchedule .start rfl)⟩

end StreamingPoc.Netfeed.StupidPool
