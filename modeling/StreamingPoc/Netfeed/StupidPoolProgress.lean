import StreamingPoc.Java.Int32
import StreamingPoc.Lib.WorkLeft
import StreamingPoc.Netfeed.StupidPool

/-!
# StupidPool: calls end, and what the counters are worth

Neither loop retries a slot, so a call ends after a number of its own operations
that depends on the pool size alone. The price of the unsynchronised counters is
that increments get lost.
-/
namespace StreamingPoc.Netfeed.StupidPool

open StreamingPoc.Lib

variable {Client : Type} [DecidableEq Client] {size : Nat}

/-- The operations a call still makes at most. -/
def Pc.left : Pc size → Nat
  | .idle => 0
  | .returnLoop _ i => 2 * (size - i) + 1
  | .returnCas _ i => 2 * (size - i)
  | .getLoop i => 2 * (size - i) + 4
  | .getCas i _ => 2 * (size - i) + 3
  | .took _ => 2
  | .tookWrite _ _ => 1
  | .missed => 3
  | .missedWrite _ => 2
  | .allocate => 1

theorem LocalStep.pays {sh sh' : Shared size} {me me' : Local size}
    (done : LocalStep sh me .go sh' me') : me'.pc.left + 1 ≤ me.pc.left := by
  cases done with
  | returnFree held ba i free => simp [Pc.left]
  | returnSkip held ba other i full =>
    have below := i.isLt
    simp only [Pc.left]
    omega
  | returnStore held ba i free =>
    have below := i.isLt
    simp only [Pc.left]
    omega
  | returnLost held ba i taken =>
    have below := i.isLt
    simp only [Pc.left]
    omega
  | getSkip held i free =>
    have below := i.isLt
    simp only [Pc.left]
    omega
  | getLost held ba i changed =>
    have below := i.isLt
    simp only [Pc.left]
    omega
  | _ => simp [Pc.left]

/-- A call is never blocked, whatever the other clients have done. -/
theorem clientStep_isSome (sh : Shared size) (me : Local size) (busy : me.pc ≠ .idle) :
    (clientStep sh me .go).isSome := by
  obtain ⟨pc, held⟩ := me
  cases pc with
  | idle => exact absurd rfl busy
  | returnLoop ba i =>
    simp only [clientStep]
    split
    · split <;> rfl
    · rfl
  | returnCas ba i =>
    simp only [clientStep]
    split <;> rfl
  | getLoop i =>
    simp only [clientStep]
    split
    · split <;> rfl
    · rfl
  | getCas i ba =>
    simp only [clientStep]
    split <;> rfl
  | _ => rfl

theorem Pc.left_eq_zero {pc : Pc size} (none_left : pc.left = 0) : pc = .idle := by
  cases pc with
  | returnCas ba i =>
    have below := i.isLt
    simp only [Pc.left] at none_left
    omega
  | idle => rfl
  | _ => simp [Pc.left] at none_left

/-- The steps of all clients in which `c` begins no call, its own being the working ones. -/
theorem workLeft (c : Client) :
    WorkLeft step (fun _ => True) (fun act : Client × Move => act.1 = c → act.2 = .go)
      (fun act => act.1 = c) fun s : State Client size => (s.clients c).pc.left where
  keeps _ _ _ := trivial
  pays := by
    rintro s ⟨actor, act⟩ t - own move
    obtain ⟨done, others⟩ := step_cases move
    by_cases mine : actor = c
    · obtain rfl := own mine
      subst mine
      simpa using done.pays
    · simp [mine, others c (Ne.symm mine)]

/-- The own operations of a call that begins with the move. -/
def Move.bound (size : Nat) : Move → Nat
  | .getBA => 2 * size + 4
  | .returnBA _ => 2 * size + 1
  | .go => 0

theorem LocalStep.left_le_bound {sh sh' : Shared size} {me me' : Local size} {call : Move}
    (done : LocalStep sh me call sh' me') (new : call ≠ .go) : me'.pc.left ≤ call.bound size := by
  cases done with
  | beginGet held => simp [Pc.left, Move.bound]
  | beginReturn held ba holds => simp [Pc.left, Move.bound]
  | _ => exact absurd rfl new

/-- Both calls are wait-free: however the steps of the other clients fall between
its own, a call can always take its next step, and it is over after at most
`2 * size + 4` of them (`getBA`) or `2 * size + 1` (`returnBA`). -/
theorem calls_wait_free {s u t : State Client size} {c : Client} {call : Move} (new : call ≠ .go)
    (begins : step s (c, call) = some u) {acts : List (Client × Move)} (ran : exec step u acts = some t)
    (own : ∀ act ∈ acts, act.1 = c → act.2 = .go) :
    acts.countP (fun act => act.1 = c) ≤ call.bound size ∧
      ((t.clients c).pc ≠ .idle → (step t (c, .go)).isSome) ∧
      (acts.countP (fun act => act.1 = c) = call.bound size → (t.clients c).pc = .idle) := by
  have bound : (u.clients c).pc.left ≤ call.bound size := (step_cases begins).1.left_le_bound new
  have paid := ((workLeft c).exec_pays trivial own ran).1
  refine ⟨by omega, ?_, ?_⟩
  · intro busy
    rw [step, Option.isSome_map]
    exact clientStep_isSome _ _ busy
  · intro all
    apply Pc.left_eq_zero
    omega

/-- One slot, filled by `false`. -/
def filling : List (Bool × Move) :=
  [(false, .getBA), (false, .go), (false, .go), (false, .go), (false, .go), (false, .go),
    (false, .returnBA 0), (false, .go), (false, .go)]

/-- `false` takes the buffer `true` has read, before the `compareAndSet` of `true`. -/
def lostRace : List (Bool × Move) :=
  [(true, .go), (false, .getBA), (false, .go), (false, .go), (true, .go), (true, .go), (true, .go),
    (true, .go), (true, .go)]

theorem calls_wait_free_lost_race :
    ∃ s u t : State Bool 1, exec step (StupidPool.initial Bool 1) filling = some s ∧
      step s (true, .getBA) = some u ∧ exec step u lostRace = some t ∧ (t.clients true).pc = .idle := by
  have ran : (exec step (StupidPool.initial Bool 1) (filling ++ (true, .getBA) :: lostRace)).isSome := by
    decide +kernel
  obtain ⟨t, run⟩ := Option.isSome_iff_exists.mp ran
  rw [exec_append] at run
  obtain ⟨s, filled, later⟩ := Option.bind_eq_some_iff.mp run
  obtain ⟨u, begins, raced⟩ := Option.bind_eq_some_iff.mp later
  have own : ∀ act ∈ lostRace, act.1 = true → act.2 = .go := by
    simp [lostRace]
  exact ⟨s, u, t, filled, begins, raced, (calls_wait_free (by simp) begins raced own).2.2 rfl⟩

/-! ### The counters -/

/-- A run with the true numbers of buffers taken from a slot and of misses. No step
reads the two. -/
structure Counted (Client : Type) (size : Nat) where
  state : State Client size
  hits : Nat
  misses : Nat

def Pc.hits : Pc size → Nat
  | .tookWrite _ _ => 1
  | _ => 0

def Pc.misses : Pc size → Nat
  | .missedWrite _ => 1
  | _ => 0

def countedStep (s : Counted Client size) (act : Client × Move) : Option (Counted Client size) :=
  (step s.state act).map fun state =>
    { state
      hits := s.hits + (s.state.clients act.1).pc.hits
      misses := s.misses + (s.state.clients act.1).pc.misses }

/-- A value of a counter, read at any time, after `n` increments. -/
def Plausible (n : Nat) (counter : Int32) : Prop := 0 ≤ counter.toInt ∧ counter.toInt ≤ n

def Pc.Plausible (hits misses : Nat) : Pc size → Prop
  | .tookWrite _ read => StupidPool.Plausible hits read
  | .missedWrite read => StupidPool.Plausible misses read
  | _ => True

theorem Plausible.mono {n m : Nat} {counter : Int32} (bounds : Plausible n counter) (le : n ≤ m) :
    Plausible m counter := by
  obtain ⟨nonneg, above⟩ := bounds
  exact ⟨nonneg, by omega⟩

/-- Writing back a value that was read at any time before. -/
theorem Plausible.increment {n : Nat} {read : Int32} (bounds : Plausible n read) (small : n + 1 < 2 ^ 31) :
    Plausible (n + 1) (read + 1) := by
  obtain ⟨nonneg, above⟩ := bounds
  have notLast : read ≠ Int32.maxValue := by
    rintro rfl
    have last : Int32.maxValue.toInt = 2 ^ 31 - 1 := rfl
    omega
  rw [Plausible, Java.Int32.toInt_add_one notLast]
  omega

/-- The counters, and what was read of them some time ago, never exceed the true
numbers. -/
structure CountInv (s : Counted Client size) : Prop where
  success : Plausible s.hits s.state.shared.success
  fail : Plausible s.misses s.state.shared.fail
  reads : ∀ c, (s.state.clients c).pc.Plausible s.hits s.misses

theorem Pc.Plausible.mono {hits misses hits' misses' : Nat} {pc : Pc size}
    (bounds : pc.Plausible hits misses) (hits_le : hits ≤ hits') (misses_le : misses ≤ misses') :
    pc.Plausible hits' misses' := by
  cases pc with
  | tookWrite ba read => exact StupidPool.Plausible.mono bounds hits_le
  | missedWrite read => exact StupidPool.Plausible.mono bounds misses_le
  | _ => trivial

theorem LocalStep.counts {sh sh' : Shared size} {me me' : Local size} {act : Move} {hits misses : Nat}
    (done : LocalStep sh me act sh' me') (success : Plausible hits sh.success)
    (fail : Plausible misses sh.fail) (reads : me.pc.Plausible hits misses)
    (smallHits : hits + me.pc.hits < 2 ^ 31) (smallMisses : misses + me.pc.misses < 2 ^ 31) :
    Plausible (hits + me.pc.hits) sh'.success ∧ Plausible (misses + me.pc.misses) sh'.fail ∧
      me'.pc.Plausible (hits + me.pc.hits) (misses + me.pc.misses) := by
  cases done with
  | readSuccess held ba => exact ⟨success, fail, success⟩
  | readFail held => exact ⟨success, fail, fail⟩
  | writeSuccess held ba read => exact ⟨Plausible.increment reads smallHits, fail, trivial⟩
  | writeFail held read => exact ⟨success, Plausible.increment reads smallMisses, trivial⟩
  | _ => exact ⟨success, fail, trivial⟩

theorem countInv_step {s t : Counted Client size} {act : Client × Move} (inv : CountInv s)
    (smallHits : t.hits < 2 ^ 31) (smallMisses : t.misses < 2 ^ 31)
    (move : countedStep s act = some t) : CountInv t := by
  obtain ⟨state, moved, rfl⟩ := Option.map_eq_some_iff.mp move
  obtain ⟨done, others⟩ := step_cases moved
  obtain ⟨success, fail, mine⟩ :=
    done.counts inv.success inv.fail (inv.reads act.1) smallHits smallMisses
  refine ⟨success, fail, fun c => ?_⟩
  by_cases same : c = act.1
  · rw [same]
    exact mine
  · simp only [others c same]
    exact (inv.reads c).mono (Nat.le_add_right _ _) (Nat.le_add_right _ _)

def Counted.initial (Client : Type) (size : Nat) : Counted Client size :=
  { state := StupidPool.initial Client size, hits := 0, misses := 0 }

/-- Increments get lost between a read and a write, so the statistics are lower
bounds only: in every run with fewer than `2 ^ 31` hits and misses neither counter
exceeds the true number, and neither becomes negative. -/
theorem counters_never_overstate {s : Counted Client size}
    (reach : Reachable countedStep (Counted.initial Client size) s)
    (smallHits : s.hits < 2 ^ 31) (smallMisses : s.misses < 2 ^ 31) :
    Plausible s.hits s.state.shared.success ∧ Plausible s.misses s.state.shared.fail := by
  have inv : s.hits < 2 ^ 31 → s.misses < 2 ^ 31 → CountInv s := by
    refine reach.invariant (fun s => s.hits < 2 ^ 31 → s.misses < 2 ^ 31 → CountInv s) ?_ ?_
    · intro _ _
      exact ⟨⟨Int.le_refl _, Int.le_refl _⟩, ⟨Int.le_refl _, Int.le_refl _⟩, fun c => trivial⟩
    · intro s act t ih move smallHits smallMisses
      obtain ⟨state, -, rfl⟩ := Option.map_eq_some_iff.mp move
      have before := ih (Nat.lt_of_le_of_lt (Nat.le_add_right _ _) smallHits)
        (Nat.lt_of_le_of_lt (Nat.le_add_right _ _) smallMisses)
      exact countInv_step before smallHits smallMisses move
  exact ⟨(inv smallHits smallMisses).success, (inv smallHits smallMisses).fail⟩

/-- Two misses at the same time, of which one is counted. -/
def lostIncrement : List (Bool × Move) :=
  [(false, .getBA), (true, .getBA), (false, .go), (true, .go), (false, .go), (true, .go), (false, .go),
    (true, .go)]

theorem counters_never_overstate_lost_increment :
    ∃ s : Counted Bool 0, exec countedStep (Counted.initial Bool 0) lostIncrement = some s ∧
      s.misses = 2 ∧ s.state.shared.fail = 1 ∧ Plausible s.misses s.state.shared.fail := by
  have ran : (exec countedStep (Counted.initial Bool 0) lostIncrement).map (fun s : Counted Bool 0 =>
      (s.hits, s.misses, s.state.shared.fail)) = some (0, 2, 1) := by decide +kernel
  obtain ⟨s, run, same⟩ := Option.map_eq_some_iff.mp ran
  obtain ⟨hits, counts⟩ := Prod.mk.inj same
  obtain ⟨misses, fail⟩ := Prod.mk.inj counts
  refine ⟨s, run, misses, fail, ?_⟩
  exact (counters_never_overstate (.of_exec lostIncrement .start run) (by omega) (by omega)).2

end StreamingPoc.Netfeed.StupidPool
