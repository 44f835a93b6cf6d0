import Mathlib.Data.List.Nodup
import Mathlib.Data.List.Perm.Basic
import StreamingPoc.Lib.Custody
import StreamingPoc.Netfeed.StupidPool

/-!
# StupidPool: every buffer is in at most one place

Refinement of a custody map (`Lib/Custody.lean`): a buffer is in one slot, or in
the hands of one client. A client that waits before its `compareAndSet` in
`getBA` remembers a buffer it read some time ago, which is not custody of it:
the slot may have gone to null and back since (ABA), and only the winning
`compareAndSet` moves the buffer.
-/
namespace StreamingPoc.Netfeed.StupidPool

open StreamingPoc.Lib

variable {Client : Type} [DecidableEq Client] {size : Nat}

/-- The buffer a call in progress carries: `getBA` after its winning
`compareAndSet`, `returnBA` before its winning one. -/
def Pc.carried : Pc size → List BA
  | .returnLoop ba _ | .returnCas ba _ | .took ba | .tookWrite ba _ => [ba]
  | _ => []

def Local.hands (me : Local size) : List BA := me.pc.carried ++ me.held

inductive Place (Client : Type) (size : Nat) where
  | slot (i : Fin size)
  | hand (c : Client)
  deriving DecidableEq, Repr

def State.keptAt (s : State Client size) (ba : BA) : Place Client size → Prop
  | .slot i => s.shared.pool i = some ba
  | .hand c => ba ∈ (s.clients c).hands

/-- What one step does to the custody of buffers. -/
inductive Effect (sh : Shared size) (me : Local size) (sh' : Shared size) (me' : Local size) :
    Prop where
  | quiet (pool : sh'.pool = sh.pool) (fresh : sh'.fresh = sh.fresh)
      (hands : me.hands.Perm me'.hands)
  | store (i : Fin size) (ba : BA) (free : sh.pool i = none)
      (pool : sh'.pool = Function.update sh.pool i (some ba)) (fresh : sh'.fresh = sh.fresh)
      (hands : me.hands.Perm (ba :: me'.hands))
  | take (i : Fin size) (ba : BA) (full : sh.pool i = some ba)
      (pool : sh'.pool = Function.update sh.pool i none) (fresh : sh'.fresh = sh.fresh)
      (hands : me'.hands.Perm (ba :: me.hands))
  | drop (ba : BA) (pool : sh'.pool = sh.pool) (fresh : sh'.fresh = sh.fresh)
      (hands : me.hands.Perm (ba :: me'.hands))
  | create (pool : sh'.pool = sh.pool) (fresh : sh'.fresh = sh.fresh + 1)
      (hands : me'.hands.Perm (sh.fresh :: me.hands))

theorem LocalStep.effect {sh sh' : Shared size} {me me' : Local size} {move : Move}
    (done : LocalStep sh me move sh' me') : Effect sh me sh' me' := by
  cases done with
  | beginReturn held ba holds => exact .quiet rfl rfl (List.perm_cons_erase holds)
  | returnDrop held ba i past => exact .drop ba rfl rfl (.refl _)
  | returnStore held ba i free => exact .store i ba free rfl rfl (.refl _)
  | getTake held ba i full => exact .take i ba full rfl rfl (.refl _)
  | create held printed => exact .create rfl rfl (.refl _)
  | _ => exact .quiet rfl rfl (.refl _)

/-- The state implements the custody map `o`: the map is where the buffers are,
nobody holds a buffer twice, and identities not yet given out are nowhere. -/
structure Implements (s : State Client size) (o : Custody BA (Place Client size)) : Prop where
  tracks : Tracks s.keptAt o
  once : ∀ c, (s.clients c).hands.Nodup
  unseen : ∀ ba, s.shared.fresh ≤ ba → o ba = none

omit [DecidableEq Client] in
theorem implements_initial : Implements (initial Client size) fun _ => none where
  tracks ba p := by
    cases p <;> simp [State.keptAt, initial, Local.hands, Pc.carried]
  once c := by simp [initial, Local.hands, Pc.carried]
  unseen _ _ := rfl

namespace Implements

variable {s t : State Client size} {o : Custody BA (Place Client size)} {c : Client}

/-- Nobody's hands changed but the acting client's, which are still duplicate free. -/
theorem once_of_others (impl : Implements s o)
    (others : ∀ d, d ≠ c → t.clients d = s.clients d) (mine : (t.clients c).hands.Nodup) :
    ∀ d, (t.clients d).hands.Nodup := by
  intro d
  by_cases same : d = c
  · subst same
    exact mine
  · rw [others d same]
    exact impl.once d

omit [DecidableEq Client] in
theorem not_elsewhere (impl : Implements s o) {ba : BA} {p : Place Client size}
    (kept : s.keptAt ba p) {q : Place Client size} (other : q ≠ p) : ¬ s.keptAt ba q :=
  fun also => other (impl.tracks.exclusive also kept)

theorem quiet (impl : Implements s o) (others : ∀ d, d ≠ c → t.clients d = s.clients d)
    (pool : t.shared.pool = s.shared.pool) (fresh : t.shared.fresh = s.shared.fresh)
    (hands : (s.clients c).hands.Perm (t.clients c).hands) : Implements t o where
  tracks := impl.tracks.congr fun ba p => by
    cases p with
    | slot i => simp only [State.keptAt, pool]
    | hand d =>
      by_cases same : d = c
      · subst same
        exact hands.symm.mem_iff
      · simp only [State.keptAt, others d same]
  once := impl.once_of_others others (hands.nodup (impl.once c))
  unseen ba later := impl.unseen ba (fresh ▸ later)

omit [DecidableEq Client] in
/-- Where a buffer is after a step that writes slot `i` and changes the hands of
client `c` only. -/
theorem keptAt_slot {i : Fin size} {v : Option BA}
    (pool : t.shared.pool = Function.update s.shared.pool i v) (ba : BA) (j : Fin size) :
    t.keptAt ba (.slot j) ↔ if j = i then v = some ba else s.keptAt ba (.slot j) := by
  simp only [State.keptAt, pool, Function.update_apply]
  split <;> rfl

theorem keptAt_hand (others : ∀ d, d ≠ c → t.clients d = s.clients d) (ba : BA) (d : Client) :
    t.keptAt ba (.hand d) ↔
      if d = c then ba ∈ (t.clients c).hands else s.keptAt ba (.hand d) := by
  split
  · rename_i same
    rw [same]
    rfl
  · rename_i other
    rw [State.keptAt, State.keptAt, others d other]

omit [DecidableEq Client] in
/-- A buffer with a place has an identity that was given out. -/
theorem unseen_update (impl : Implements s o) {ba : BA} {p : Place Client size}
    (kept : o ba = some p) (next : Option (Place Client size)) {x : BA}
    (later : s.shared.fresh ≤ x) : Function.update o ba next x = none := by
  have old := impl.unseen x later
  have other : x ≠ ba := by
    rintro rfl
    simp [kept] at old
  rw [Function.update_of_ne other, old]

theorem store (impl : Implements s o) (others : ∀ d, d ≠ c → t.clients d = s.clients d)
    {i : Fin size} {ba : BA} (free : s.shared.pool i = none)
    (pool : t.shared.pool = Function.update s.shared.pool i (some ba))
    (fresh : t.shared.fresh = s.shared.fresh)
    (hands : (s.clients c).hands.Perm (ba :: (t.clients c).hands)) :
    o ba = some (.hand c) ∧ Implements t (Function.update o ba (some (.slot i))) := by
  have mine : s.keptAt ba (.hand c) := hands.mem_iff.mpr List.mem_cons_self
  have known := (impl.tracks _ _).mp mine
  have nodup := List.nodup_cons.mp (hands.nodup (impl.once c))
  refine ⟨known, impl.tracks.put ba (.slot i) ?_, impl.once_of_others others nodup.2,
    fun x later => impl.unseen_update known _ (fresh ▸ later)⟩
  intro x p
  cases p with
  | slot j =>
    rw [keptAt_slot pool]
    have absent : ¬ s.keptAt ba (.slot j) := impl.not_elsewhere mine (by simp)
    have empty : ¬ s.keptAt x (.slot i) := by simp [State.keptAt, free]
    grind
  | hand d =>
    rw [keptAt_hand others]
    have split : x ∈ (s.clients c).hands ↔ x = ba ∨ x ∈ (t.clients c).hands :=
      hands.mem_iff.trans List.mem_cons
    have absent : d ≠ c → ¬ s.keptAt ba (.hand d) := fun other =>
      impl.not_elsewhere mine (by simpa using other)
    have own : s.keptAt x (.hand c) ↔ x ∈ (s.clients c).hands := Iff.rfl
    grind

theorem take (impl : Implements s o) (others : ∀ d, d ≠ c → t.clients d = s.clients d)
    {i : Fin size} {ba : BA} (full : s.shared.pool i = some ba)
    (pool : t.shared.pool = Function.update s.shared.pool i none)
    (fresh : t.shared.fresh = s.shared.fresh)
    (hands : (t.clients c).hands.Perm (ba :: (s.clients c).hands)) :
    o ba = some (.slot i) ∧ Implements t (Function.update o ba (some (.hand c))) := by
  have inSlot : s.keptAt ba (.slot i) := full
  have known := (impl.tracks _ _).mp inSlot
  have notMine : ba ∉ (s.clients c).hands := impl.not_elsewhere inSlot (q := .hand c) (by simp)
  have nodup : (t.clients c).hands.Nodup :=
    hands.symm.nodup (List.nodup_cons.mpr ⟨notMine, impl.once c⟩)
  refine ⟨known, impl.tracks.put ba (.hand c) ?_, impl.once_of_others others nodup,
    fun x later => impl.unseen_update known _ (fresh ▸ later)⟩
  intro x p
  cases p with
  | slot j =>
    rw [keptAt_slot pool]
    have absent : j ≠ i → ¬ s.keptAt ba (.slot j) := fun other =>
      impl.not_elsewhere inSlot (by simpa using other)
    have only : s.keptAt x (.slot i) ↔ x = ba := by simp [State.keptAt, full, eq_comm]
    grind
  | hand d =>
    rw [keptAt_hand others]
    have split : x ∈ (t.clients c).hands ↔ x = ba ∨ x ∈ (s.clients c).hands :=
      hands.mem_iff.trans List.mem_cons
    have absent : ¬ s.keptAt ba (.hand d) := impl.not_elsewhere inSlot (by simp)
    have own : s.keptAt x (.hand c) ↔ x ∈ (s.clients c).hands := Iff.rfl
    grind

theorem drop (impl : Implements s o) (others : ∀ d, d ≠ c → t.clients d = s.clients d)
    {ba : BA} (pool : t.shared.pool = s.shared.pool) (fresh : t.shared.fresh = s.shared.fresh)
    (hands : (s.clients c).hands.Perm (ba :: (t.clients c).hands)) :
    o ba = some (.hand c) ∧ Implements t (Function.update o ba none) := by
  have mine : s.keptAt ba (.hand c) := hands.mem_iff.mpr List.mem_cons_self
  have known := (impl.tracks _ _).mp mine
  have nodup := List.nodup_cons.mp (hands.nodup (impl.once c))
  refine ⟨known, impl.tracks.drop ba ?_, impl.once_of_others others nodup.2,
    fun x later => impl.unseen_update known _ (fresh ▸ later)⟩
  intro x p
  cases p with
  | slot j =>
    have absent : ¬ s.keptAt ba (.slot j) := impl.not_elsewhere mine (by simp)
    have same : t.keptAt x (.slot j) ↔ s.keptAt x (.slot j) := by simp only [State.keptAt, pool]
    grind
  | hand d =>
    rw [keptAt_hand others]
    have split : x ∈ (s.clients c).hands ↔ x = ba ∨ x ∈ (t.clients c).hands :=
      hands.mem_iff.trans List.mem_cons
    have absent : d ≠ c → ¬ s.keptAt ba (.hand d) := fun other =>
      impl.not_elsewhere mine (by simpa using other)
    have own : s.keptAt x (.hand c) ↔ x ∈ (s.clients c).hands := Iff.rfl
    grind

theorem create (impl : Implements s o) (others : ∀ d, d ≠ c → t.clients d = s.clients d)
    (pool : t.shared.pool = s.shared.pool) (fresh : t.shared.fresh = s.shared.fresh + 1)
    (hands : (t.clients c).hands.Perm (s.shared.fresh :: (s.clients c).hands)) :
    o s.shared.fresh = none ∧
      Implements t (Function.update o s.shared.fresh (some (.hand c))) := by
  have unknown := impl.unseen _ (Nat.le_refl s.shared.fresh)
  have nowhere : ∀ q, ¬ s.keptAt s.shared.fresh q := by
    intro q kept
    simp [(impl.tracks _ _).mp kept] at unknown
  have nodup : (t.clients c).hands.Nodup :=
    hands.symm.nodup (List.nodup_cons.mpr ⟨nowhere (.hand c), impl.once c⟩)
  refine ⟨unknown, impl.tracks.put _ (.hand c) ?_, impl.once_of_others others nodup, ?_⟩
  · intro x p
    have absent := nowhere p
    cases p with
    | slot j =>
      have same : t.keptAt x (.slot j) ↔ s.keptAt x (.slot j) := by simp only [State.keptAt, pool]
      grind
    | hand d =>
      rw [keptAt_hand others]
      have split : x ∈ (t.clients c).hands ↔ x = s.shared.fresh ∨ x ∈ (s.clients c).hands :=
        hands.mem_iff.trans List.mem_cons
      have own : s.keptAt x (.hand c) ↔ x ∈ (s.clients c).hands := Iff.rfl
      grind
  · intro x later
    rw [fresh] at later
    rw [Function.update_of_ne (Nat.ne_of_gt later)]
    exact impl.unseen x (Nat.le_of_succ_le later)

end Implements

/-- Each step of the pool is at most one change of custody. -/
theorem step_simulates {s t : State Client size} {act : Client × Move}
    {o : Custody BA (Place Client size)} (impl : Implements s o) (move : step s act = some t) :
    ∃ o', Relation.ReflGen Transfer o o' ∧ Implements t o' := by
  obtain ⟨mine, others⟩ := step_cases move
  cases mine.effect with
  | quiet pool fresh hands => exact ⟨o, .refl, impl.quiet others pool fresh hands⟩
  | store i ba free pool fresh hands =>
    obtain ⟨known, impl'⟩ := impl.store others free pool fresh hands
    exact ⟨_, .single (.move o ba _ _ known), impl'⟩
  | take i ba full pool fresh hands =>
    obtain ⟨known, impl'⟩ := impl.take others full pool fresh hands
    exact ⟨_, .single (.move o ba _ _ known), impl'⟩
  | drop ba pool fresh hands =>
    obtain ⟨known, impl'⟩ := impl.drop others pool fresh hands
    exact ⟨_, .single (.lose o ba _ known), impl'⟩
  | create pool fresh hands =>
    obtain ⟨unknown, impl'⟩ := impl.create others pool fresh hands
    exact ⟨_, .single (.create o _ _ unknown), impl'⟩

/-- The pool refines the custody map: every reachable state implements a map
that an abstract run of transfers reaches. -/
theorem reachable_refines {s : State Client size}
    (reach : Reachable step (initial Client size) s) :
    ∃ o, Relation.ReflTransGen Transfer (fun _ => none) o ∧ Implements s o :=
  reach.simulation Transfer Implements implements_initial
    fun _ _ _ _ impl move => step_simulates impl move

/-- In every reachable state a buffer is in at most one slot or one client's
hands, and there once; so no two clients hold one buffer and no buffer is in two
slots, whatever stale reads the clients act on. -/
theorem buffers_owned_exclusively {s : State Client size}
    (reach : Reachable step (initial Client size) s) :
    (∀ ba p q, s.keptAt ba p → s.keptAt ba q → p = q) ∧
      (∀ c, (s.clients c).hands.Nodup) ∧
      (∀ ba c d, ba ∈ (s.clients c).hands → ba ∈ (s.clients d).hands → c = d) ∧
      (∀ ba i j, s.shared.pool i = some ba → s.shared.pool j = some ba → i = j) ∧
      ∀ ba p, s.keptAt ba p → ba < s.shared.fresh := by
  obtain ⟨o, -, impl⟩ := reachable_refines reach
  refine ⟨fun ba p q => impl.tracks.exclusive, impl.once, ?_, ?_, ?_⟩
  · intro ba c d first second
    exact Place.hand.inj (impl.tracks.exclusive (p := .hand c) (q := .hand d) first second)
  · intro ba i j first second
    exact Place.slot.inj (impl.tracks.exclusive (p := .slot i) (q := .slot j) first second)
  · intro ba p kept
    by_contra later
    have known := (impl.tracks ba p).mp kept
    simp [impl.unseen ba (Nat.le_of_not_lt later)] at known

/-- A schedule with a slot that goes from a buffer to null and back: `false`
returns buffer 0, `true` reads it and stops before its `compareAndSet`, `false`
takes the buffer out and puts it back, and `true` wins with its stale read. -/
def abaSchedule : List (Bool × Move) :=
  let get := List.replicate 5 (false, Move.go)
  let put := List.replicate 2 (false, Move.go)
  [(false, .getBA)] ++ get ++ [(false, .returnBA 0)] ++ put ++
    [(true, .getBA), (true, .go), (false, .getBA)] ++ List.replicate 4 (false, Move.go) ++
    [(false, .returnBA 0)] ++ put ++ [(true, .go)]

theorem buffers_owned_exclusively_aba :
    ∃ s, exec step (initial Bool 1) abaSchedule = some s ∧ 0 ∈ (s.clients true).hands ∧
      ∀ c d, 0 ∈ (s.clients c).hands → 0 ∈ (s.clients d).hands → c = d := by
  refine ⟨_, rfl, by decide, fun c d => ?_⟩
  exact (buffers_owned_exclusively (.of_exec abaSchedule .start rfl)).2.2.1 0 c d

end StreamingPoc.Netfeed.StupidPool
