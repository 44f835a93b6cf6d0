import StreamingPoc.Netfeed.StupidPool

/-!
# StupidPool: a miss has a reason

A call spans an interval of a run. A `returnBA` that drops its buffer has seen
every slot occupied at some moment of the call, a `getBA` that allocates has
seen every slot free at some moment of it. A failed `compareAndSet` is not tried
again on its slot, so it must witness the same: in `returnBA` the slot is
occupied when it fails; in `getBA` the slot no longer holds the buffer read
before, and a slot changes from one buffer to another only through null.
Without overlap the calls are the sequential operations `SeqGet`, `SeqReturn`.
-/
namespace StreamingPoc.Netfeed.StupidPool

open StreamingPoc.Lib

variable {Client : Type} [DecidableEq Client] {size : Nat}

abbrev PoolRun (Client : Type) [DecidableEq Client] (size : Nat) : Type :=
  Run step (initial Client size)

/-- Client `c` begins `call` with action `p` and is back at the end of it in
state `q`, with no end of a call in between. -/
structure IsCall (run : PoolRun Client size) (c : Client) (call : Move) (p q : Nat) : Prop where
  invoked : run.act p = (c, call)
  begins : p < q
  within : q ≤ run.length
  busy : ∀ k, p < k → k < q → ((run.state k).clients c).pc ≠ .idle
  returned : ((run.state q).clients c).pc = .idle

/-- Action `k` is a step of `c` that puts `ba` into a free slot. -/
def Stores (run : PoolRun Client size) (c : Client) (ba : BA) (k : Nat) : Prop :=
  (run.act k).1 = c ∧
    ∃ i, (run.state k).shared.pool i = none ∧ (run.state (k + 1)).shared.pool i = some ba

/-- Action `k` is a step of `c` that creates a new array. -/
def Allocates (run : PoolRun Client size) (c : Client) (k : Nat) : Prop :=
  (run.act k).1 = c ∧ (run.state (k + 1)).shared.fresh = (run.state k).shared.fresh + 1

/-- A slot changes from one buffer to another only through null. -/
theorem LocalStep.slot_through_null {sh sh' : Shared size} {me me' : Local size} {move : Move}
    (done : LocalStep sh me move sh' me') {i : Fin size} {ba : BA} (full : sh.pool i = some ba) :
    sh'.pool i = some ba ∨ sh'.pool i = none := by
  cases done with
  | returnStore held other j free =>
    by_cases here : i = j
    · subst here
      simp [full] at free
    · exact .inl (by simpa [here] using full)
  | getTake held other j taken =>
    by_cases here : i = j
    · subst here
      exact .inr (by simp)
    · exact .inl (by simpa [here] using full)
  | _ => exact .inl full

theorem LocalStep.begins_return {sh sh' : Shared size} {me me' : Local size} {ba : BA}
    (done : LocalStep sh me (.returnBA ba) sh' me') :
    sh' = sh ∧ me' = ⟨.returnLoop ba 0, me.held.erase ba⟩ := by
  cases done
  exact ⟨rfl, rfl⟩

theorem LocalStep.begins_get {sh sh' : Shared size} {me me' : Local size}
    (done : LocalStep sh me .getBA sh' me') : sh' = sh ∧ me' = ⟨.getLoop 0, me.held⟩ := by
  cases done
  exact ⟨rfl, rfl⟩

/-- The first state of a call, as its first action leaves it. -/
theorem IsCall.first {run : PoolRun Client size} {c : Client} {call : Move} {p q : Nat}
    (isCall : IsCall run c call p q) :
    LocalStep (run.state p).shared ((run.state p).clients c) call
      (run.state (p + 1)).shared ((run.state (p + 1)).clients c) := by
  have move := run.next p (Nat.lt_of_lt_of_le isCall.begins isCall.within)
  have mine := (step_cases move).1
  simpa only [isCall.invoked] using mine

/-- An invariant of the calling client's program point and the shared state holds
throughout the call, if the client's own steps keep it as long as the call goes
on and the other clients' steps keep it. -/
theorem IsCall.throughout {run : PoolRun Client size} {c : Client} {call : Move} {p q : Nat}
    (isCall : IsCall run c call p q) (P : Shared size → Local size → Prop)
    (first : P (run.state (p + 1)).shared ((run.state (p + 1)).clients c))
    (own : ∀ k, p < k → k + 1 < q → (run.act k).1 = c →
      P (run.state k).shared ((run.state k).clients c) →
      LocalStep (run.state k).shared ((run.state k).clients c) (run.act k).2
        (run.state (k + 1)).shared ((run.state (k + 1)).clients c) →
      P (run.state (k + 1)).shared ((run.state (k + 1)).clients c))
    (others : ∀ k, p < k → k + 1 < q → (run.act k).1 ≠ c →
      P (run.state k).shared ((run.state k).clients c) →
      ∀ me me', LocalStep (run.state k).shared me (run.act k).2 (run.state (k + 1)).shared me' →
      P (run.state (k + 1)).shared ((run.state k).clients c)) :
    ∀ k, p < k → k < q → P (run.state k).shared ((run.state k).clients c) := by
  refine run.interval_invariant isCall.within _ (fun _ => first) ?_
  intro k after before move holds
  obtain ⟨mine, rest⟩ := step_cases move
  by_cases actor : (run.act k).1 = c
  · rw [actor] at mine
    exact own k after before actor holds mine
  · rw [rest c (Ne.symm actor)]
    exact others k after before actor holds _ _ mine

/-- The step that ends a call is the calling client's own. -/
theorem IsCall.last {run : PoolRun Client size} {c : Client} {call : Move} {p q : Nat}
    (isCall : IsCall run c call p q) (begun : ((run.state (p + 1)).clients c).pc ≠ .idle) :
    ∃ k, p < k ∧ k + 1 = q ∧ (run.act k).1 = c ∧
      LocalStep (run.state k).shared ((run.state k).clients c) (run.act k).2
        (run.state q).shared ((run.state q).clients c) := by
  obtain ⟨begins, within⟩ := And.intro isCall.begins isCall.within
  have longer : q ≠ p + 1 := by
    rintro rfl
    exact begun isCall.returned
  obtain ⟨k, rfl⟩ : ∃ k, q = k + 1 := ⟨q - 1, by omega⟩
  have notIdle := isCall.busy k (by omega) (by omega)
  obtain ⟨mine, rest⟩ := step_cases (run.next k (by omega))
  have actor : (run.act k).1 = c := by
    by_contra other
    rw [← rest c (Ne.symm other)] at notIdle
    exact notIdle isCall.returned
  refine ⟨k, by omega, rfl, actor, ?_⟩
  rwa [actor] at mine

/-! ### returnBA -/

/-- Inside `returnBA ba`, with all slots before the loop index seen occupied. -/
def Pc.ReturnSeen (ba : BA) (seen : Fin size → Prop) : Pc size → Prop
  | .returnLoop own i => own = ba ∧ ∀ j : Fin size, j.val < i → seen j
  | .returnCas own i => own = ba ∧ ∀ j : Fin size, j.val < i.val → seen j
  | _ => False

theorem LocalStep.return_progress {sh sh' : Shared size} {me me' : Local size} {move : Move}
    {ba : BA} {seen : Fin size → Prop} (done : LocalStep sh me move sh' me')
    (inside : me.pc.ReturnSeen ba seen) (now : ∀ j, sh.pool j ≠ none → seen j) :
    me'.pc.ReturnSeen ba seen ∨
      me'.pc = .idle ∧ ((∃ i, sh.pool i = none ∧ sh'.pool i = some ba) ∨ ∀ j, seen j) := by
  cases done with
  | returnFree held own i free => exact .inl inside
  | returnSkip held own other i full =>
    refine .inl ⟨inside.1, fun j below => ?_⟩
    rcases Nat.lt_succ_iff_lt_or_eq.mp below with before | here
    · exact inside.2 j before
    · exact now j (by simp [Fin.ext here, full])
  | returnDrop held own i past =>
    exact .inr ⟨rfl, .inr fun j => inside.2 j (Nat.lt_of_lt_of_le j.isLt past)⟩
  | returnStore held own i free =>
    obtain ⟨rfl, -⟩ := inside
    exact .inr ⟨rfl, .inl ⟨i, free, by simp⟩⟩
  | returnLost held own i taken =>
    refine .inl ⟨inside.1, fun j below => ?_⟩
    rcases Nat.lt_succ_iff_lt_or_eq.mp below with before | here
    · exact inside.2 j before
    · exact now j (by rwa [Fin.ext here])
  | _ => exact inside.elim

/-- A `returnBA` that nowhere stores its buffer has seen every slot occupied. -/
theorem dropped_saw_full {run : PoolRun Client size} {c : Client} {ba : BA} {p q : Nat}
    (isCall : IsCall run c (.returnBA ba) p q)
    (dropped : ∀ k, p < k → k < q → ¬ Stores run c ba k) (i : Fin size) :
    ∃ k, p < k ∧ k < q ∧ (run.state k).shared.pool i ≠ none := by
  let seen : Fin size → Prop := fun j => ∃ k, p < k ∧ k < q ∧ (run.state k).shared.pool j ≠ none
  have begun : ((run.state (p + 1)).clients c).pc = .returnLoop ba 0 :=
    congrArg Local.pc isCall.first.begins_return.2
  have inside := isCall.throughout (fun _ me => me.pc.ReturnSeen ba seen)
    (by rw [begun]; exact ⟨rfl, fun j below => absurd below (Nat.not_lt_zero _)⟩)
    (fun k after before actor holds mine => by
      rcases mine.return_progress holds fun j full => ⟨k, after, by omega, full⟩ with again | ⟨ended, -⟩
      · exact again
      · exact absurd ended (isCall.busy (k + 1) (by omega) before))
    (fun k after before actor holds me me' done => holds)
  obtain ⟨k, after, rfl, actor, last⟩ := isCall.last (by simp [begun])
  have holds := inside k after (Nat.lt_succ_self k)
  rcases last.return_progress holds fun j full => ⟨k, after, Nat.lt_succ_self k, full⟩ with
    again | ⟨-, stored | all⟩
  · rw [isCall.returned] at again
    exact again.elim
  · exact absurd ⟨actor, stored⟩ (dropped k after (Nat.lt_succ_self k))
  · exact all i

/-! ### getBA -/

/-- Inside `getBA`, with all slots before the loop index seen free. A slot waiting
for its `compareAndSet` holds the buffer that was read, or has been free since. -/
def Pc.GetSeen (seen : Fin size → Prop) (pool : Fin size → Option BA) : Pc size → Prop
  | .getLoop i => ∀ j : Fin size, j.val < i → seen j
  | .getCas i ba => (∀ j : Fin size, j.val < i.val → seen j) ∧ (pool i = some ba ∨ seen i)
  | .took _ | .tookWrite _ _ => True
  | .missed | .missedWrite _ | .allocate => ∀ j, seen j
  | _ => False

theorem LocalStep.get_progress {sh sh' : Shared size} {me me' : Local size} {move : Move}
    {seen : Fin size → Prop} (done : LocalStep sh me move sh' me')
    (inside : me.pc.GetSeen seen sh.pool) (now : ∀ j, sh.pool j = none → seen j)
    (notEnded : me'.pc ≠ .idle) : me'.pc.GetSeen seen sh'.pool := by
  cases done with
  | getFull held ba i full => exact ⟨inside, .inl full⟩
  | getSkip held i free =>
    intro j below
    rcases Nat.lt_succ_iff_lt_or_eq.mp below with before | here
    · exact inside j before
    · exact now j (by rwa [Fin.ext here])
  | getMiss held i past => exact fun j => inside j (Nat.lt_of_lt_of_le j.isLt past)
  | getTake held ba i full => trivial
  | getLost held ba i changed =>
    intro j below
    rcases Nat.lt_succ_iff_lt_or_eq.mp below with before | here
    · exact inside.1 j before
    · rw [Fin.ext here]
      exact inside.2.resolve_left changed
  | readSuccess held ba => trivial
  | writeSuccess held ba read => exact absurd rfl notEnded
  | readFail held => exact inside
  | writeFail held read => exact inside
  | create held printed => exact absurd rfl notEnded
  | _ => exact inside.elim

/-- The other clients' steps: the waiting slot keeps its buffer or becomes free. -/
theorem LocalStep.get_disturbed {sh sh' : Shared size} {me me' : Local size} {move : Move}
    {seen : Fin size → Prop} {pc : Pc size} (done : LocalStep sh me move sh' me')
    (inside : pc.GetSeen seen sh.pool) (later : ∀ j, sh'.pool j = none → seen j) :
    pc.GetSeen seen sh'.pool := by
  cases pc with
  | getCas i ba =>
    refine ⟨inside.1, ?_⟩
    rcases inside.2 with full | free
    · exact (done.slot_through_null full).imp_right (later i)
    · exact .inr free
  | _ => exact inside

/-- Throughout a `getBA` call the slots before the loop index have been free. -/
theorem IsCall.get_seen {run : PoolRun Client size} {c : Client} {p q : Nat}
    (isCall : IsCall run c .getBA p q) (k : Nat) (after : p < k) (before : k < q) :
    ((run.state k).clients c).pc.GetSeen
      (fun j => ∃ m, p < m ∧ m < q ∧ (run.state m).shared.pool j = none)
      (run.state k).shared.pool := by
  have begun : ((run.state (p + 1)).clients c).pc = .getLoop 0 :=
    congrArg Local.pc isCall.first.begins_get.2
  refine isCall.throughout (fun sh me => me.pc.GetSeen _ sh.pool) ?_ ?_ ?_ k after before
  · rw [begun]
    exact fun j below => absurd below (Nat.not_lt_zero _)
  · intro k after before actor holds mine
    exact mine.get_progress holds (fun j free => ⟨k, after, by omega, free⟩)
      (isCall.busy (k + 1) (by omega) before)
  · intro k after before actor holds me me' done
    exact done.get_disturbed holds fun j free => ⟨k + 1, by omega, before, free⟩

/-- Only `new byte[1500]` advances the supply of identities. -/
theorem LocalStep.allocates {sh sh' : Shared size} {me me' : Local size} {move : Move}
    (done : LocalStep sh me move sh' me') (more : sh'.fresh = sh.fresh + 1) :
    me.pc = .allocate := by
  cases done with
  | create held printed => rfl
  | _ => exact absurd more (Nat.ne_of_lt (Nat.lt_succ_self _))

/-- A `getBA` that allocates has seen every slot free. -/
theorem allocated_saw_free {run : PoolRun Client size} {c : Client} {p q k : Nat}
    (isCall : IsCall run c .getBA p q) (after : p < k) (before : k < q)
    (allocates : Allocates run c k) (i : Fin size) :
    ∃ m, p < m ∧ m < q ∧ (run.state m).shared.pool i = none := by
  obtain ⟨actor, more⟩ := allocates
  have mine := (step_cases (run.next k (Nat.lt_of_lt_of_le before isCall.within))).1
  rw [actor] at mine
  have inside := isCall.get_seen k after before
  rw [mine.allocates more] at inside
  exact inside i

/-! ### Calls without overlap -/

/-- What `getBA` does when it runs alone: the lowest occupied slot is emptied and
its buffer returned, and only an empty pool leads to a new array. -/
inductive SeqGet (pool : Fin size → Option BA) (fresh : BA) :
    (Fin size → Option BA) → BA → BA → Prop where
  | take (i : Fin size) (ba : BA) (full : pool i = some ba) (lowest : ∀ j < i, pool j = none) :
      SeqGet pool fresh (Function.update pool i none) fresh ba
  | allocate (empty : ∀ i, pool i = none) : SeqGet pool fresh pool (fresh + 1) fresh

/-- What `returnBA` does when it runs alone: the lowest free slot is filled, and
only a full pool drops the buffer. -/
inductive SeqReturn (pool : Fin size → Option BA) (ba : BA) : (Fin size → Option BA) → Prop where
  | store (i : Fin size) (free : pool i = none) (lowest : ∀ j < i, pool j ≠ none) :
      SeqReturn pool ba (Function.update pool i (some ba))
  | drop (full : ∀ i, pool i ≠ none) : SeqReturn pool ba pool

/-- Where a `getBA` that began with `pool` is, when nobody else moves. -/
def Pc.AloneGet (pool : Fin size → Option BA) (fresh : BA) (sh : Shared size) : Pc size → Prop
  | .getLoop i => sh.pool = pool ∧ sh.fresh = fresh ∧ ∀ j : Fin size, j.val < i → pool j = none
  | .getCas i ba =>
    sh.pool = pool ∧ sh.fresh = fresh ∧ pool i = some ba ∧ ∀ j < i, pool j = none
  | .took ba | .tookWrite ba _ =>
    sh.fresh = fresh ∧ ∃ i, sh.pool = Function.update pool i none ∧ pool i = some ba ∧
      ∀ j < i, pool j = none
  | .missed | .missedWrite _ | .allocate =>
    sh.pool = pool ∧ sh.fresh = fresh ∧ ∀ j, pool j = none
  | _ => False

theorem LocalStep.alone_get {sh sh' : Shared size} {me me' : Local size} {move : Move}
    {pool : Fin size → Option BA} {fresh : BA} (done : LocalStep sh me move sh' me')
    (inside : me.pc.AloneGet pool fresh sh) :
    (me'.pc.AloneGet pool fresh sh' ∧ me'.held = me.held) ∨
      ∃ ba, SeqGet pool fresh sh'.pool sh'.fresh ba ∧ me' = ⟨.idle, ba :: me.held⟩ := by
  cases done with
  | getFull held ba i full =>
    obtain ⟨rfl, rfl, below⟩ := inside
    exact .inl ⟨⟨rfl, rfl, full, below⟩, rfl⟩
  | getSkip held i free =>
    obtain ⟨rfl, rfl, below⟩ := inside
    refine .inl ⟨⟨rfl, rfl, fun j lower => ?_⟩, rfl⟩
    rcases Nat.lt_succ_iff_lt_or_eq.mp lower with before | here
    · exact below j before
    · rwa [Fin.ext here]
  | getMiss held i past =>
    obtain ⟨rfl, rfl, below⟩ := inside
    exact .inl ⟨⟨rfl, rfl, fun j => below j (Nat.lt_of_lt_of_le j.isLt past)⟩, rfl⟩
  | getTake held ba i full =>
    obtain ⟨rfl, rfl, -, below⟩ := inside
    exact .inl ⟨⟨rfl, i, rfl, full, below⟩, rfl⟩
  | getLost held ba i changed =>
    obtain ⟨rfl, -, full, -⟩ := inside
    exact absurd full changed
  | readSuccess held ba => exact .inl ⟨inside, rfl⟩
  | writeSuccess held ba read =>
    obtain ⟨rfl, i, emptied, full, below⟩ := inside
    refine .inr ⟨ba, ?_, rfl⟩
    rw [emptied]
    exact .take i ba full below
  | readFail held => exact .inl ⟨inside, rfl⟩
  | writeFail held read => exact .inl ⟨inside, rfl⟩
  | create held printed =>
    obtain ⟨rfl, rfl, empty⟩ := inside
    exact .inr ⟨sh.fresh, .allocate empty, rfl⟩
  | _ => exact inside.elim

/-- Where a `returnBA ba` that began with `pool` is, when nobody else moves. -/
def Pc.AloneReturn (pool : Fin size → Option BA) (ba : BA) (sh : Shared size) : Pc size → Prop
  | .returnLoop own i => own = ba ∧ sh.pool = pool ∧ ∀ j : Fin size, j.val < i → pool j ≠ none
  | .returnCas own i => own = ba ∧ sh.pool = pool ∧ pool i = none ∧ ∀ j < i, pool j ≠ none
  | _ => False

theorem LocalStep.alone_return {sh sh' : Shared size} {me me' : Local size} {move : Move}
    {pool : Fin size → Option BA} {ba : BA} (done : LocalStep sh me move sh' me')
    (inside : me.pc.AloneReturn pool ba sh) :
    (me'.pc.AloneReturn pool ba sh' ∧ me'.held = me.held) ∨
      SeqReturn pool ba sh'.pool ∧ me' = ⟨.idle, me.held⟩ := by
  cases done with
  | returnFree held own i free =>
    obtain ⟨rfl, rfl, below⟩ := inside
    exact .inl ⟨⟨rfl, rfl, free, below⟩, rfl⟩
  | returnSkip held own other i full =>
    obtain ⟨rfl, rfl, below⟩ := inside
    refine .inl ⟨⟨rfl, rfl, fun j lower => ?_⟩, rfl⟩
    rcases Nat.lt_succ_iff_lt_or_eq.mp lower with before | here
    · exact below j before
    · simp [Fin.ext here, full]
  | returnDrop held own i past =>
    obtain ⟨rfl, rfl, below⟩ := inside
    exact .inr ⟨.drop fun j => below j (Nat.lt_of_lt_of_le j.isLt past), rfl⟩
  | returnStore held own i free =>
    obtain ⟨rfl, rfl, -, below⟩ := inside
    exact .inr ⟨.store i free below, rfl⟩
  | returnLost held own i taken =>
    obtain ⟨-, rfl, free, -⟩ := inside
    exact absurd free taken
  | _ => exact inside.elim

/-- Nobody but `c` acts during the call. -/
def Alone (run : PoolRun Client size) (c : Client) (p q : Nat) : Prop :=
  ∀ k, p ≤ k → k < q → (run.act k).1 = c

/-- A `getBA` without overlap is the sequential operation. -/
theorem alone_get_sequential {run : PoolRun Client size} {c : Client} {p q : Nat}
    (isCall : IsCall run c .getBA p q) (alone : Alone run c p q) :
    ∃ ba, SeqGet (run.state p).shared.pool (run.state p).shared.fresh
        (run.state q).shared.pool (run.state q).shared.fresh ba ∧
      ((run.state q).clients c).held = ba :: ((run.state p).clients c).held := by
  obtain ⟨same, begun⟩ := isCall.first.begins_get
  have inside := isCall.throughout
    (fun sh me => me.pc.AloneGet (run.state p).shared.pool (run.state p).shared.fresh sh ∧
      me.held = ((run.state p).clients c).held)
    (by rw [same, begun]; exact ⟨⟨rfl, rfl, fun j below => absurd below (Nat.not_lt_zero _)⟩, rfl⟩)
    (fun k after before actor holds mine => by
      rcases mine.alone_get holds.1 with ⟨again, held⟩ | ⟨ba, -, ended⟩
      · exact ⟨again, held.trans holds.2⟩
      · exact absurd (congrArg Local.pc ended) (isCall.busy (k + 1) (by omega) before))
    (fun k after before actor => absurd (alone k (by omega) (by omega)) actor)
  obtain ⟨k, after, rfl, actor, last⟩ := isCall.last (by simp [begun])
  obtain ⟨holds, held⟩ := inside k after (Nat.lt_succ_self k)
  rcases last.alone_get holds with ⟨again, -⟩ | ⟨ba, done, ended⟩
  · rw [isCall.returned] at again
    exact again.elim
  · exact ⟨ba, done, by rw [ended, held]⟩

/-- A `returnBA` without overlap is the sequential operation. -/
theorem alone_return_sequential {run : PoolRun Client size} {c : Client} {ba : BA} {p q : Nat}
    (isCall : IsCall run c (.returnBA ba) p q) (alone : Alone run c p q) :
    SeqReturn (run.state p).shared.pool ba (run.state q).shared.pool ∧
      ((run.state q).clients c).held = ((run.state p).clients c).held.erase ba := by
  obtain ⟨same, begun⟩ := isCall.first.begins_return
  have inside := isCall.throughout
    (fun sh me => me.pc.AloneReturn (run.state p).shared.pool ba sh ∧
      me.held = ((run.state p).clients c).held.erase ba)
    (by rw [same, begun]; exact ⟨⟨rfl, rfl, fun j below => absurd below (Nat.not_lt_zero _)⟩, rfl⟩)
    (fun k after before actor holds mine => by
      rcases mine.alone_return holds.1 with ⟨again, held⟩ | ⟨-, ended⟩
      · exact ⟨again, held.trans holds.2⟩
      · exact absurd (congrArg Local.pc ended) (isCall.busy (k + 1) (by omega) before))
    (fun k after before actor => absurd (alone k (by omega) (by omega)) actor)
  obtain ⟨k, after, rfl, actor, last⟩ := isCall.last (by simp [begun])
  obtain ⟨holds, held⟩ := inside k after (Nat.lt_succ_self k)
  rcases last.alone_return holds with ⟨again, -⟩ | ⟨done, ended⟩
  · rw [isCall.returned] at again
    exact again.elim
  · exact ⟨done, by rw [ended, held]⟩

/-- `SeqGet` decides: a new array exactly when the pool is empty. -/
theorem SeqGet.fresh_iff {pool pool' : Fin size → Option BA} {fresh fresh' ba : BA}
    (done : SeqGet pool fresh pool' fresh' ba) : fresh' = fresh + 1 ↔ ∀ i, pool i = none := by
  cases done with
  | take i ba full lowest =>
    constructor
    · intro more
      exact absurd more (Nat.ne_of_lt (Nat.lt_succ_self _))
    · intro empty
      simp [empty i] at full
  | allocate empty => exact ⟨fun _ => empty, fun _ => rfl⟩

/-- `SeqReturn` decides: the pool is unchanged exactly when it is full. -/
theorem SeqReturn.unchanged_iff {pool pool' : Fin size → Option BA} {ba : BA}
    (done : SeqReturn pool ba pool') : pool' = pool ↔ ∀ i, pool i ≠ none := by
  cases done with
  | store i free lowest =>
    constructor
    · intro same
      have stored := congrFun same i
      simp [free] at stored
    · intro full
      exact absurd free (full i)
  | drop full => exact ⟨fun _ => full, fun _ => rfl⟩

/-- The pool only misses for a reason. A `returnBA` that stores its buffer
nowhere saw every slot occupied and a `getBA` that allocates saw every slot free,
each at some moment of the call; so a slot free throughout a `returnBA` prevents
the drop and a slot occupied throughout a `getBA` prevents the allocation.
Without overlap both calls are the sequential operations. -/
theorem misses_have_a_reason (run : PoolRun Client size) :
    (∀ c ba p q, IsCall run c (.returnBA ba) p q →
      (∀ k, p < k → k < q → ¬ Stores run c ba k) →
      ∀ i, ∃ k, p < k ∧ k < q ∧ (run.state k).shared.pool i ≠ none) ∧
    (∀ c p q, IsCall run c .getBA p q → (∃ k, p < k ∧ k < q ∧ Allocates run c k) →
      ∀ i, ∃ k, p < k ∧ k < q ∧ (run.state k).shared.pool i = none) ∧
    (∀ c ba p q i, IsCall run c (.returnBA ba) p q →
      (∀ k, p < k → k < q → (run.state k).shared.pool i = none) →
      ∃ k, p < k ∧ k < q ∧ Stores run c ba k) ∧
    (∀ c p q i, IsCall run c .getBA p q →
      (∀ k, p < k → k < q → (run.state k).shared.pool i ≠ none) →
      ∀ k, p < k → k < q → ¬ Allocates run c k) ∧
    (∀ c p q, IsCall run c .getBA p q → Alone run c p q →
      ∃ ba, SeqGet (run.state p).shared.pool (run.state p).shared.fresh
          (run.state q).shared.pool (run.state q).shared.fresh ba ∧
        ((run.state q).shared.fresh = (run.state p).shared.fresh + 1 ↔
          ∀ i, (run.state p).shared.pool i = none) ∧
        ((run.state q).clients c).held = ba :: ((run.state p).clients c).held) ∧
    (∀ c ba p q, IsCall run c (.returnBA ba) p q → Alone run c p q →
      SeqReturn (run.state p).shared.pool ba (run.state q).shared.pool ∧
        ((run.state q).shared.pool = (run.state p).shared.pool ↔
          ∀ i, (run.state p).shared.pool i ≠ none) ∧
        ((run.state q).clients c).held = ((run.state p).clients c).held.erase ba) := by
  refine ⟨fun c ba p q => dropped_saw_full, ?_, ?_, ?_, ?_, ?_⟩
  · rintro c p q isCall ⟨k, after, before, allocates⟩
    exact allocated_saw_free isCall after before allocates
  · intro c ba p q i isCall free
    by_contra nowhere
    obtain ⟨k, after, before, full⟩ := dropped_saw_full isCall
      (fun k after before stores => nowhere ⟨k, after, before, stores⟩) i
    exact full (free k after before)
  · intro c p q i isCall full k after before allocates
    obtain ⟨m, later, earlier, free⟩ := allocated_saw_free isCall after before allocates i
    exact full m later earlier free
  · intro c p q isCall alone
    obtain ⟨ba, done, held⟩ := alone_get_sequential isCall alone
    exact ⟨ba, done, done.fresh_iff, held⟩
  · intro c ba p q isCall alone
    obtain ⟨done, held⟩ := alone_return_sequential isCall alone
    exact ⟨done, done.unchanged_iff, held⟩

/-- One client and one slot: two new arrays, one put into the slot, one dropped. -/
def dropSchedule : List (Unit × Move) :=
  let go (n : Nat) := List.replicate n ((), Move.go)
  [((), .getBA)] ++ go 5 ++ [((), .getBA)] ++ go 5 ++ [((), .returnBA 0)] ++ go 2 ++
    [((), .returnBA 1)] ++ go 2

/-- The first array is new, so the slot was free during the call; the second array
is dropped, so the slot was occupied during that call. -/
theorem misses_have_a_reason_drop :
    ∃ run : PoolRun Unit 1,
      (IsCall run () .getBA 0 6 ∧ (∃ k, 0 < k ∧ k < 6 ∧ Allocates run () k) ∧
        ∀ i, ∃ k, 0 < k ∧ k < 6 ∧ (run.state k).shared.pool i = none) ∧
      IsCall run () (.returnBA 1) 15 18 ∧
        (∀ k, 15 < k → k < 18 → ¬ Stores run () 1 k) ∧
        ∀ i, ∃ k, 15 < k ∧ k < 18 ∧ (run.state k).shared.pool i ≠ none := by
  let run : PoolRun Unit 1 := .ofExec ((), .go) dropSchedule rfl
  have isGet : IsCall run () .getBA 0 6 := by
    refine ⟨rfl, by decide, by decide, fun k after before => ?_, by decide +kernel⟩
    obtain rfl | rfl | rfl | rfl | rfl : k = 1 ∨ k = 2 ∨ k = 3 ∨ k = 4 ∨ k = 5 := by omega
    all_goals decide +kernel
  have isNew : ∃ k, 0 < k ∧ k < 6 ∧ Allocates run () k := ⟨5, by decide, by decide, rfl, rfl⟩
  have isCall : IsCall run () (.returnBA 1) 15 18 := by
    refine ⟨rfl, by decide, by decide, fun k after before => ?_, by decide +kernel⟩
    obtain rfl | rfl : k = 16 ∨ k = 17 := by omega
    · decide +kernel
    · decide +kernel
  have dropped : ∀ k, 15 < k → k < 18 → ¬ Stores run () 1 k := by
    rintro k after before ⟨-, i, free, -⟩
    have full : ∀ j : Fin 1, (run.state 16).shared.pool j ≠ none ∧
        (run.state 17).shared.pool j ≠ none := by decide +kernel
    obtain rfl | rfl : k = 16 ∨ k = 17 := by omega
    · exact (full i).1 free
    · exact (full i).2 free
  have reasons := misses_have_a_reason run
  exact ⟨run, ⟨isGet, isNew, reasons.2.1 () 0 6 isGet isNew⟩, isCall, dropped, reasons.1 () 1 15 18 isCall dropped⟩

end StreamingPoc.Netfeed.StupidPool
