import StreamingPoc.Java.Int64
import StreamingPoc.Lib.Pacing
import StreamingPoc.Netfeed.RoundTripModel

/-!
# The send rate of EventPublisher

Runs of the round trip in real time. A step of any thread comes at a time that is
not before the last one, and `System.nanoTime()` is that time reduced to a long,
so it may wrap in a run. The time of a step that reads no clock counts for the
acceptance of an offer.
-/
namespace StreamingPoc.Netfeed

open StreamingPoc.Java StreamingPoc.Lib

/-- An action without the clock reading, which its time gives. -/
inductive TimedAct (D : Type) where
  | fill (bidPrc : D)
  | leave
  | offer (answer : Bool)
  | nanoTime
  | receive
  | offerBack (answer : Bool)
  | handleBack
  deriving DecidableEq, Repr

variable {D : Type}

def TimedAct.act (time : Int) : TimedAct D → Act D
  | .fill bidPrc => .fill bidPrc (Int64.ofInt time)
  | .leave => .leave
  | .offer answer => .offer answer
  | .nanoTime => .nanoTime (Int64.ofInt time)
  | .receive => .receive
  | .offerBack answer => .offerBack answer
  | .handleBack => .handleBack (Int64.ofInt time)

/-- The round trip and the time of its last step. `stamped` and `accepted` are the
times at which the send timestamps were read and the market events accepted. No
step reads the two. -/
structure Timed (D : Type) where
  trip : RoundTrip D
  now : Int
  stamped : List Int
  accepted : List Int

/-- Whether the step is the accepted offer of a market event. -/
def Timed.accepts (s : Timed D) : TimedAct D → Bool
  | .offer answer => answer && (s.trip.sender.pc matches .offer _)
  | _ => false

def TimedAct.stamps : TimedAct D → Bool
  | .fill _ => true
  | _ => false

def timedStep [JDouble D] (args : Nat → RunArgs) (s : Timed D) (timed : Int × TimedAct D) : Option (Timed D) :=
  if s.now ≤ timed.1 then
    (step args s.trip (timed.2.act timed.1)).map fun trip =>
      { trip
        now := timed.1
        stamped := s.stamped ++ if timed.2.stamps then [timed.1] else []
        accepted := s.accepted ++ if s.accepts timed.2 then [timed.1] else [] }
  else none

def Timed.initial [JDouble D] (start : Int) : Timed D :=
  { trip := .initial, now := start, stamped := [], accepted := [] }

/-- The stamps are those of the accepted events, and of one in an offer spin; the
times at which two events were stamped, and accepted, are apart by a pause for
each event between them; so a window of `w` pauses holds at most `w` events. -/
structure Paced (pause : Int) (s : Timed D) : Prop where
  stamps : s.trip.stream.accepted.filterMap Message.stamp =
    (s.stamped.take s.accepted.length).map Int64.ofInt
  events : (s.trip.stream.accepted.filterMap Message.stamp).length = s.accepted.length
  stampsApart : ∀ j k (_ : j < k) (within : k < s.stamped.length),
    (k - j : Int) * pause ≤ s.stamped[k] - s.stamped[j]
  acceptancesApart : ∀ j k (_ : j < k) (within : k < s.accepted.length),
    (k - j : Int) * pause ≤ s.accepted[k] - s.accepted[j]
  window : 0 < pause → ∀ (start : Int) (w : Nat),
    (s.accepted.filter fun t => decide (start ≤ t ∧ t < start + w * pause)).length ≤ w

/-- The timestamp of an event in an offer spin. -/
def Sender.pending (s : Sender D) : List Int64 :=
  match s.pc with
  | .offer _ => [s.struct.sendTimeStampNanos]
  | _ => []

/-- What the sender may count on at its program point: the pause after the last
event is over, or it runs from a reading of the clock after the acceptance. -/
def SenderPc.Ready (pause now : Int) (stamped accepted : List Int) : SenderPc → Prop
  | .loop _ | .offerEnd => (∀ x ∈ stamped, x + pause ≤ now) ∧ ∀ x ∈ accepted, x + pause ≤ now
  | .offer _ => ∀ x ∈ accepted, x + pause ≤ now
  | .clock _ => True
  | .pause _ time => ∃ t, time = Int64.ofInt t ∧ t ≤ now ∧ (∀ x ∈ stamped, x ≤ t) ∧ ∀ x ∈ accepted, x ≤ t

structure PaceInv (pause : Int) (s : Timed D) : Prop where
  stamps : s.stamped.map Int64.ofInt =
    s.trip.stream.accepted.filterMap Message.stamp ++ s.trip.sender.pending
  events : s.accepted.length = (s.trip.stream.accepted.filterMap Message.stamp).length
  spacedStamps : Spaced pause s.stamped
  spacedAcceptances : Spaced pause s.accepted
  stampedPast : ∀ x ∈ s.stamped, x ≤ s.now
  acceptedPast : ∀ x ∈ s.accepted, x ≤ s.now
  ready : s.trip.sender.pc.Ready pause s.now s.stamped s.accepted

theorem SenderPc.Ready.later {pause now now' : Int} {stamped accepted : List Int} {pc : SenderPc}
    (ready : pc.Ready pause now stamped accepted) (later : now ≤ now') :
    pc.Ready pause now' stamped accepted := by
  cases pc with
  | loop i => exact ⟨fun x member => (ready.1 x member).trans later, fun x member => (ready.2 x member).trans later⟩
  | offer i => exact fun x member => (ready x member).trans later
  | clock i => trivial
  | pause i time =>
    obtain ⟨t, reading, past, before⟩ := ready
    exact ⟨t, reading, past.trans later, before⟩
  | offerEnd => exact ⟨fun x member => (ready.1 x member).trans later, fun x member => (ready.2 x member).trans later⟩

/-- Readings of the past and the present one. -/
theorem past_append_singleton {readings : List Int} {now time : Int} (past : ∀ x ∈ readings, x ≤ now)
    (later : now ≤ time) : ∀ x ∈ readings ++ [time], x ≤ time := by
  intro x member
  rcases List.mem_append.mp member with before | last
  · exact (past x before).trans later
  · exact Int.le_of_eq (List.mem_singleton.mp last)

/-- A step that sends nothing and keeps what the sender may count on. -/
theorem PaceInv.quiet {pause time : Int} {s : Timed D} {trip : RoundTrip D} (inv : PaceInv pause s)
    (later : s.now ≤ time)
    (stream : trip.stream.accepted.filterMap Message.stamp =
      s.trip.stream.accepted.filterMap Message.stamp)
    (pending : trip.sender.pending = s.trip.sender.pending)
    (ready : trip.sender.pc.Ready pause time s.stamped s.accepted) :
    PaceInv pause { s with trip, now := time } := by
  refine ⟨?_, ?_, inv.spacedStamps, inv.spacedAcceptances, ?_, ?_, ready⟩
  · rw [inv.stamps, stream, pending]
  · rw [inv.events, stream]
  · exact fun x member => (inv.stampedPast x member).trans later
  · exact fun x member => (inv.acceptedPast x member).trans later

section

variable [JDouble D] {pause : Int32} {args : Nat → RunArgs} {s : Timed D} {trip : RoundTrip D} {time : Int}

/-- The stamp of an event is read when the pause after the last one is over. -/
theorem PaceInv.fill (inv : PaceInv pause.toInt s) (later : s.now ≤ time) {bidPrc : D}
    (move : step args s.trip (.fill bidPrc (Int64.ofInt time)) = some trip) :
    PaceInv pause.toInt { trip, now := time, stamped := s.stamped ++ [time], accepted := s.accepted } := by
  obtain ⟨sender, filled, rfl⟩ := Option.map_eq_some_iff.mp move
  unfold Sender.fill at filled
  split at filled
  · rename_i i pc
    have stamps := inv.stamps
    have ready := inv.ready
    rw [Sender.pending, pc, List.append_nil] at stamps
    rw [pc] at ready
    split at filled
    · cases filled
      refine ⟨?_, inv.events, ?_, inv.spacedAcceptances, ?_, ?_, ?_⟩
      · rw [List.map_append, stamps]
        rfl
      · exact spaced_append_singleton.mpr
          ⟨inv.spacedStamps, fun x member => (ready.1 x member).trans later⟩
      · exact past_append_singleton inv.stampedPast later
      · exact fun x member => (inv.acceptedPast x member).trans later
      · exact fun x member => (ready.2 x member).trans later
    · cases filled
  · cases filled

/-- The exit of the for loop keeps the pause. -/
theorem PaceInv.leave (inv : PaceInv pause.toInt s) (later : s.now ≤ time)
    (move : step args s.trip .leave = some trip) :
    PaceInv pause.toInt { s with trip, now := time } := by
  obtain ⟨sender, left, rfl⟩ := Option.map_eq_some_iff.mp move
  unfold Sender.leave at left
  split at left
  · rename_i i pc
    have ready := inv.ready.later later
    rw [pc] at ready
    split at left
    · cases left
    · cases left
      refine inv.quiet later rfl ?_ ready
      rw [Sender.pending, Sender.pending, pc]
  · cases left

/-- An event is accepted after it was stamped, an END between two events. -/
theorem PaceInv.offer (inv : PaceInv pause.toInt s) (later : s.now ≤ time) {answer : Bool}
    (move : step args s.trip (.offer answer) = some trip) :
    PaceInv pause.toInt { s with
      trip, now := time
      accepted := s.accepted ++ if s.accepts (.offer answer) then [time] else [] } := by
  have stamps := inv.stamps
  have ready := inv.ready.later later
  simp only [step] at move
  cases answer with
  | false =>
    -- the spin goes on
    split at move
    · cases move
      have noEvent : (if s.accepts (.offer false) then [time] else []) = [] := rfl
      rw [noEvent, List.append_nil]
      exact inv.quiet later rfl rfl ready
    · cases move
  | true =>
    rw [Sender.pending] at stamps
    cases pc : s.trip.sender.pc with
    | offer i =>
      rw [pc] at stamps ready
      simp only [Sender.offer, pc] at move
      cases move
      have accepts : s.accepts (.offer true) = true := by simp [Timed.accepts, pc]
      rw [accepts, if_pos rfl]
      refine ⟨?_, ?_, inv.spacedStamps, ?_, ?_, ?_, trivial⟩
      · rw [stamps]
        simp [Topic.offer, Sender.pending, Message.stamp]
      · rw [List.length_append, inv.events]
        simp [Topic.offer, Message.stamp]
      · exact spaced_append_singleton.mpr ⟨inv.spacedAcceptances, ready⟩
      · exact fun x member => (inv.stampedPast x member).trans later
      · exact past_append_singleton inv.acceptedPast later
    | offerEnd =>
      rw [pc] at ready
      simp only [Sender.offer, pc] at move
      cases move
      have accepts : s.accepts (.offer true) = false := by simp [Timed.accepts, pc]
      rw [accepts, if_neg Bool.false_ne_true, List.append_nil]
      refine inv.quiet later ?_ ?_ ready
      · simp [Topic.offer, Message.stamp, endMessage]
      · rw [Sender.pending, Sender.pending, pc]
        rfl
    | _ =>
      rw [Sender.offer, pc] at move
      cases move

/-- The pause spin ends when a pause is over in real time. -/
theorem PaceInv.nanoTime (same : ∀ round, (args round).pauseNanos = pause) (nonneg : 0 ≤ pause.toInt)
    (inv : PaceInv pause.toInt s) (later : s.now ≤ time)
    (move : step args s.trip (.nanoTime (Int64.ofInt time)) = some trip) :
    PaceInv pause.toInt { s with trip, now := time } := by
  obtain ⟨sender, read, rfl⟩ := Option.map_eq_some_iff.mp move
  unfold Sender.nanoTime at read
  split at read
  · rename_i i pc
    cases read
    refine inv.quiet later rfl ?_ ⟨time, rfl, Int.le_refl _, ?_, ?_⟩
    · rw [Sender.pending, Sender.pending, pc]
    · exact fun x member => (inv.stampedPast x member).trans later
    · exact fun x member => (inv.acceptedPast x member).trans later
  · rename_i i reading pc
    have ready := inv.ready.later later
    rw [pc] at ready
    split at read
    · cases read
      refine inv.quiet later rfl rfl ?_
      rw [pc]
      exact ready
    · rename_i waitedOut
      cases read
      obtain ⟨t, rfl, past, stamped, accepted⟩ := ready
      rw [same, Int64.lt_iff_toInt_lt, Int32.toInt_toInt64] at waitedOut
      have waited := Java.Int64.le_of_le_sub_ofInt past nonneg (Int.not_lt.mp waitedOut)
      refine inv.quiet later rfl ?_ ⟨?_, ?_⟩
      · rw [Sender.pending, Sender.pending, pc]
      · intro x member
        have := stamped x member
        omega
      · intro x member
        have := accepted x member
        omega
  · cases read

theorem paceInv_step (same : ∀ round, (args round).pauseNanos = pause) (nonneg : 0 ≤ pause.toInt)
    {t : Timed D} {timed : Int × TimedAct D} (inv : PaceInv pause.toInt s)
    (move : timedStep args s timed = some t) : PaceInv pause.toInt t := by
  obtain ⟨time, act⟩ := timed
  unfold timedStep at move
  split at move
  · rename_i later
    obtain ⟨trip, moved, rfl⟩ := Option.map_eq_some_iff.mp move
    clear move
    have still : PaceInv pause.toInt { s with trip, now := time } ↔ PaceInv pause.toInt
        { trip, now := time, stamped := s.stamped ++ [], accepted := s.accepted ++ [] } := by
      rw [List.append_nil, List.append_nil]
    cases act with
    | fill bidPrc =>
      have filled := inv.fill later moved
      simpa [TimedAct.stamps, Timed.accepts] using filled
    | leave => exact still.mp (inv.leave later moved)
    | offer answer =>
      have offered := inv.offer later moved
      simpa [TimedAct.stamps] using offered
    | nanoTime => exact still.mp (PaceInv.nanoTime same nonneg inv later moved)
    | receive =>
      simp only [TimedAct.act, step] at moved
      split at moved
      · cases moved
        exact still.mp (inv.quiet later rfl rfl (inv.ready.later later))
      · cases moved
    | offerBack answer =>
      simp only [TimedAct.act, step] at moved
      split at moved
      · cases moved
        exact still.mp (inv.quiet later rfl rfl (inv.ready.later later))
      · cases moved
    | handleBack =>
      simp only [TimedAct.act, step] at moved
      split at moved
      · cases moved
        exact still.mp (inv.quiet later rfl rfl (inv.ready.later later))
      · cases moved
  · cases move

theorem paceInv_initial (start : Int) : PaceInv pause.toInt (Timed.initial start : Timed D) := by
  refine ⟨rfl, rfl, List.Pairwise.nil, List.Pairwise.nil, ?_, ?_, ?_, ?_⟩ <;>
  · intro x member
    cases member

/-- The pause caps the send rate: in every run, over all rounds and both spins. -/
theorem publisher_paced (same : ∀ round, (args round).pauseNanos = pause) (nonneg : 0 ≤ pause.toInt)
    {start : Int} (reach : Reachable (timedStep args) (.initial start) s) : Paced pause.toInt s := by
  have inv : PaceInv pause.toInt s := reach.invariant (PaceInv pause.toInt) (paceInv_initial start)
    fun _ _ _ inv move => paceInv_step same nonneg inv move
  refine ⟨?_, inv.events.symm, ?_, ?_, ?_⟩
  · rw [List.map_take, inv.stamps, inv.events, List.take_left]
  · intro j k lt within
    have apart := inv.spacedStamps.getElem_le lt within
    omega
  · intro j k lt within
    have apart := inv.spacedAcceptances.getElem_le lt within
    omega
  · intro _ start w
    exact inv.spacedAcceptances.window_length_le start w

end

/-- Two events of a round with a refused offer and a long pause spin; the clock
wraps to the least long between them. -/
def wrappingRun : List (Int × TimedAct Exact) :=
  [(2 ^ 63 - 4, .fill (.finite 1)), (2 ^ 63 - 3, .offer false), (2 ^ 63 - 3, .offer true),
    (2 ^ 63 - 2, .nanoTime), (2 ^ 63 + 1, .nanoTime), (2 ^ 63 + 3, .nanoTime),
    (2 ^ 63 + 4, .fill (.finite 2)), (2 ^ 63 + 4, .offer true)]

theorem publisher_paced_wrapping :
    ∃ s : Timed Exact, exec (timedStep fun _ => { pauseNanos := 5, numEvents := 2 })
      (.initial 0) wrappingRun = some s ∧ s.accepted = [2 ^ 63 - 3, 2 ^ 63 + 4] ∧ Paced 5 s := by
  have ran : (exec (timedStep fun _ => { pauseNanos := 5, numEvents := 2 }) (.initial 0)
      wrappingRun).map Timed.accepted = some [2 ^ 63 - 3, 2 ^ 63 + 4] := by decide +kernel
  obtain ⟨s, run, accepted⟩ := Option.map_eq_some_iff.mp ran
  refine ⟨s, run, accepted, ?_⟩
  have same : ∀ _ : Nat, ({ pauseNanos := 5, numEvents := 2 } : RunArgs).pauseNanos = 5 := fun _ => rfl
  exact publisher_paced same (by decide) (.of_exec wrappingRun .start run)

end StreamingPoc.Netfeed
