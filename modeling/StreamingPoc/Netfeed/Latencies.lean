import StreamingPoc.Netfeed.Pacing
import StreamingPoc.Netfeed.RoundTrip

/-!
# What the histograms measure

The publisher stamps its events and measures their return with the clock of one
process, so what reaches `recordValue` is a difference of two readings that is
reduced to a long. Here it is compared with the real time between the stamping
of an event and the handling of its echo.
-/
namespace StreamingPoc.Netfeed

open StreamingPoc.Java StreamingPoc.Lib

variable {D : Type}

/-- A timed run with the real times of stamping and handling: `sentAt` is the time
at which the event of each accepted message was stamped, `none` for END,
`handledAt` the times at which 'back' messages were handled. No step reads the two. -/
structure Measured (D : Type) where
  timed : Timed D
  sentAt : List (Option Int)
  handledAt : List Int

def Measured.sends (s : Measured D) : TimedAct D → List (Option Int)
  | .offer true =>
    match s.timed.trip.sender.pc with
    | .offer _ => [s.timed.stamped.getLast?]
    | .offerEnd => [none]
    | _ => []
  | _ => []

def TimedAct.handles : TimedAct D → Bool
  | .handleBack => true
  | _ => false

def measuredStep [JDouble D] (args : Nat → RunArgs) (s : Measured D) (timed : Int × TimedAct D) :
    Option (Measured D) :=
  (timedStep args s.timed timed).map fun next =>
    { timed := next
      sentAt := s.sentAt ++ s.sends timed.2
      handledAt := s.handledAt ++ if timed.2.handles then [timed.1] else [] }

def Measured.initial [JDouble D] (start : Int) : Measured D :=
  { timed := .initial start, sentAt := [], handledAt := [] }

/-- The echoes that were handled: when the sampled event was stamped and when its
echo was handled, `none` for END. -/
def Measured.roundTrips (s : Measured D) : List (Option (Int × Int)) :=
  (sample 10 0 s.sentAt).zipWith (fun sent time => sent.map fun stamped => (stamped, time)) s.handledAt

/-- The round-trip times of a round below one second. -/
def recordedTimes (round : List (Int × Int)) : List Int :=
  (round.map fun trip => trip.2 - trip.1).filter fun time => time < 1000000000

/-- The two readings the code makes in a round trip. -/
def readings (trip : Int × Int) : Int64 × Int64 := (Int64.ofInt trip.1, Int64.ofInt trip.2)

structure LatencyInv [JDouble D] (args : Nat → RunArgs) (s : Measured D) : Prop where
  trip : Reachable (step args) RoundTrip.initial s.timed.trip
  stamps : s.sentAt.map (Option.map Int64.ofInt) = s.timed.trip.stream.accepted.map Message.stamp
  spinning : ∀ i, s.timed.trip.sender.pc = .offer i → ∃ stamped, s.timed.stamped.getLast? = some stamped ∧
    s.timed.trip.sender.struct.sendTimeStampNanos = Int64.ofInt stamped
  stampedPast : ∀ x ∈ s.timed.stamped, x ≤ s.timed.now
  sentPast : ∀ x, some x ∈ s.sentAt → x ≤ s.timed.now
  count : s.handledAt.length = s.timed.trip.back.delivered
  log : s.timed.trip.handled = s.roundTrips.map (Option.map readings)
  forward : ∀ trip, some trip ∈ s.roundTrips → trip.1 ≤ trip.2
  contained : (∀ trip, some trip ∈ s.roundTrips → trip.2 - trip.1 < 2 ^ 63) →
    s.timed.trip.handler.escaped = []

section

variable [JDouble D] {args : Nat → RunArgs} {s : Measured D}

/-- The echoes due are stamped as the sampled messages were. -/
theorem LatencyInv.due (inv : LatencyInv args s) :
    s.timed.trip.back.accepted.map Message.stamp <+:
      (sample 10 0 s.sentAt).map (Option.map Int64.ofInt) := by
  rw [← sample_map, inv.stamps]
  exact (reachable_inv inv.trip).2.1.echoes_due

/-- Messages are handled after they were due. -/
theorem LatencyInv.handled_le (inv : LatencyInv args s) :
    s.handledAt.length ≤ (sample 10 0 s.sentAt).length := by
  have accepted := inv.due.length_le
  rw [List.length_map, List.length_map] at accepted
  have delivered := (reachable_inv inv.trip).2.2.taken
  rw [inv.count]
  omega

theorem zipWith_append_left {α β γ : Type} (f : α → β → γ) (xs ys : List α) (zs : List β)
    (short : zs.length ≤ xs.length) : List.zipWith f (xs ++ ys) zs = List.zipWith f xs zs := by
  induction xs generalizing zs with
  | nil =>
    obtain rfl : zs = [] := List.length_eq_zero_iff.mp (Nat.le_zero.mp short)
    simp
  | cons x xs ih =>
    cases zs with
    | nil => rfl
    | cons z zs => simp [ih zs (Nat.le_of_succ_le_succ short)]

theorem zipWith_append_right {α β γ : Type} (f : α → β → γ) (xs : List α) (zs : List β) (z : β)
    (short : zs.length < xs.length) :
    List.zipWith f xs (zs ++ [z]) = List.zipWith f xs zs ++ [f xs[zs.length] z] := by
  induction xs generalizing zs with
  | nil => simp at short
  | cons x xs ih =>
    cases zs with
    | nil => simp
    | cons y zs => simp [ih zs (Nat.lt_of_succ_lt_succ short)]

/-- A later message does not change the round trips that are over. -/
theorem roundTrips_send (inv : LatencyInv args s) (more : List (Option Int)) (timed : Timed D) :
    Measured.roundTrips { timed, sentAt := s.sentAt ++ more, handledAt := s.handledAt } = s.roundTrips := by
  simp only [Measured.roundTrips, sample_append]
  exact zipWith_append_left _ _ _ _ inv.handled_le

variable {time : Int} {trip : RoundTrip D} {stamped accepted : List Int}

/-- A step that sends no message and handles none. -/
theorem LatencyInv.quiet (inv : LatencyInv args s) (later : s.timed.now ≤ time)
    (reach : Reachable (step args) .initial trip)
    (sent : trip.stream.accepted = s.timed.trip.stream.accepted)
    (spinning : ∀ i, trip.sender.pc = .offer i → ∃ last, stamped.getLast? = some last ∧
      trip.sender.struct.sendTimeStampNanos = Int64.ofInt last)
    (stampedPast : ∀ x ∈ stamped, x ≤ time)
    (delivered : trip.back.delivered = s.timed.trip.back.delivered)
    (handled : trip.handled = s.timed.trip.handled) (handler : trip.handler = s.timed.trip.handler) :
    LatencyInv args { s with timed := { trip, now := time, stamped, accepted } } where
  trip := reach
  stamps := by rw [inv.stamps, sent]
  spinning := spinning
  stampedPast := stampedPast
  sentPast x member := (inv.sentPast x member).trans later
  count := by rw [inv.count, delivered]
  log := by
    rw [handled]
    exact inv.log
  forward := inv.forward
  contained := by
    rw [handler]
    exact inv.contained

/-- An accepted message is stamped in the past, if it is an event. -/
theorem LatencyInv.send (inv : LatencyInv args s) (later : s.timed.now ≤ time)
    (reach : Reachable (step args) .initial trip) (sent : Option Int) (m : Message D)
    (stamp : sent.map Int64.ofInt = m.stamp) (past : ∀ x, sent = some x → x ≤ time)
    (grown : trip.stream.accepted = s.timed.trip.stream.accepted ++ [m])
    (spinning : ∀ i, trip.sender.pc ≠ .offer i)
    (back : trip.back = s.timed.trip.back)
    (handled : trip.handled = s.timed.trip.handled) (handler : trip.handler = s.timed.trip.handler) :
    LatencyInv args { s with
      timed := { trip, now := time, stamped := s.timed.stamped, accepted }
      sentAt := s.sentAt ++ [sent] } where
  trip := reach
  stamps := by
    rw [List.map_append, inv.stamps, grown, List.map_append]
    simp [stamp]
  spinning i spin := absurd spin (spinning i)
  stampedPast x member := (inv.stampedPast x member).trans later
  sentPast x member := by
    rcases List.mem_append.mp member with before | last
    · exact (inv.sentPast x before).trans later
    · exact past x (List.mem_singleton.mp last).symm
  count := by rw [inv.count, back]
  log := by
    rw [roundTrips_send inv, handled]
    exact inv.log
  forward := by
    rw [roundTrips_send inv]
    exact inv.forward
  contained := by
    rw [roundTrips_send inv, handler]
    exact inv.contained

omit [JDouble D] in
/-- What can escape is a negative latency. -/
theorem BackHandler.escaped_eq (h : BackHandler) (now : Int64) (m : Message D)
    (range : 1000000000 ≤ h.hi.highest)
    (nonneg : ∀ sent, m.stamp = some sent → 0 ≤ (now - sent).toInt) :
    (h.messageReceived now m).escaped = h.escaped := by
  cases m with
  | structString text => rfl
  | marketEvent mdata =>
    simp only [BackHandler.messageReceived]
    split
    · rename_i guard
      have limit : (1000000000 : Int64).toInt = 1000000000 := rfl
      have below := Int64.lt_iff_toInt_lt.mp guard
      rw [limit] at below
      have inRange : h.hi.InRange (now - mdata.sendTimeStampNanos) :=
        ⟨nonneg _ rfl, by omega⟩
      rw [Histogram.recordValue_inRange inRange]
    · rfl

/-- The echo that is handled next, and the round trip it ends. -/
theorem LatencyInv.handle (inv : LatencyInv args s) (later : s.timed.now ≤ time)
    (move : step args s.timed.trip (.handleBack (Int64.ofInt time)) = some trip) :
    LatencyInv args { s with
      timed := { trip, now := time, stamped := s.timed.stamped, accepted }
      handledAt := s.handledAt ++ [time] } := by
  have reach := inv.trip.next _ move
  obtain ⟨-, -, handler⟩ := reachable_inv inv.trip
  simp only [step] at move
  split at move
  · rename_i m found
    cases move
    obtain ⟨below, rfl⟩ := List.getElem?_eq_some_iff.mp found
    have short : s.handledAt.length < (sample 10 0 s.sentAt).length := by
      have accepted := inv.due.length_le
      rw [List.length_map, List.length_map] at accepted
      rw [inv.count]
      omega
    -- the handled echo is the sampled message of the same number
    have stamp : s.timed.trip.back.accepted[s.timed.trip.back.delivered].stamp =
        (sample 10 0 s.sentAt)[s.handledAt.length].map Int64.ofInt := by
      have same := inv.due.getElem (i := s.timed.trip.back.delivered) (by simpa using below)
      simpa [inv.count] using same
    generalize sent_eq : (sample 10 0 s.sentAt)[s.handledAt.length] = sent at stamp
    have past : ∀ x, sent = some x → x ≤ time := by
      rintro x rfl
      have member : some x ∈ sample 10 0 s.sentAt := sent_eq ▸ List.getElem_mem short
      exact (inv.sentPast x ((sample_sublist 10 0 s.sentAt).subset member)).trans later
    have grown : (Measured.roundTrips { s with handledAt := s.handledAt ++ [time] }) =
        s.roundTrips ++ [sent.map fun stamped => (stamped, time)] := by
      simp only [Measured.roundTrips]
      rw [zipWith_append_right _ _ _ _ short, sent_eq]
    refine ⟨reach, inv.stamps, inv.spinning, ?_, ?_, ?_, ?_, ?_, ?_⟩
    · exact fun x member => (inv.stampedPast x member).trans later
    · exact fun x member => (inv.sentPast x member).trans later
    · simp [inv.count]
    · change s.timed.trip.handled ++ _ = (Measured.roundTrips { s with handledAt := s.handledAt ++ [time] }).map _
      rw [grown, List.map_append, inv.log, stamp]
      cases sent <;> rfl
    · intro trip member
      change some trip ∈ Measured.roundTrips { s with handledAt := s.handledAt ++ [time] } at member
      rw [grown, List.mem_append, List.mem_singleton] at member
      rcases member with before | last
      · exact inv.forward trip before
      · obtain ⟨x, is_sent, rfl⟩ := Option.map_eq_some_iff.mp last.symm
        exact past x is_sent
    · intro all
      change ∀ trip, some trip ∈ Measured.roundTrips { s with handledAt := s.handledAt ++ [time] } → _ at all
      rw [grown] at all
      have before := inv.contained fun trip member => all trip (List.mem_append_left _ member)
      rw [← before]
      refine BackHandler.escaped_eq _ _ _ handler.range fun stamped_at is_stamp => ?_
      rw [stamp] at is_stamp
      obtain ⟨x, rfl, rfl⟩ := Option.map_eq_some_iff.mp is_stamp
      have forward := past x rfl
      have bound := all (x, time) (List.mem_append_right _ (by simp))
      rw [Java.Int64.toInt_sub_ofInt forward bound]
      omega
  · cases move

theorem latencyInv_step {timed : Int × TimedAct D} {t : Measured D} (inv : LatencyInv args s)
    (move : measuredStep args s timed = some t) : LatencyInv args t := by
  obtain ⟨time, act⟩ := timed
  obtain ⟨next, timed_move, rfl⟩ := Option.map_eq_some_iff.mp move
  clear move
  unfold timedStep at timed_move
  split at timed_move
  · rename_i later
    obtain ⟨trip, moved, rfl⟩ := Option.map_eq_some_iff.mp timed_move
    clear timed_move
    have reach := inv.trip.next _ moved
    have stampedPast : ∀ x ∈ s.timed.stamped, x ≤ time :=
      fun x member => (inv.stampedPast x member).trans later
    cases act with
    | fill bidPrc =>
      simp only [Measured.sends, TimedAct.handles, TimedAct.stamps, List.append_nil, if_true,
        Bool.false_eq_true, if_false]
      obtain ⟨sender, filled, rfl⟩ := Option.map_eq_some_iff.mp moved
      unfold Sender.fill at filled
      split at filled
      · split at filled
        · cases filled
          refine inv.quiet later reach rfl ?_ (past_append_singleton inv.stampedPast later) rfl rfl rfl
          exact fun i spin => ⟨time, by simp, rfl⟩
        · cases filled
      · cases filled
    | leave =>
      simp only [Measured.sends, TimedAct.handles, TimedAct.stamps, List.append_nil,
        Bool.false_eq_true, if_false]
      obtain ⟨sender, left, rfl⟩ := Option.map_eq_some_iff.mp moved
      unfold Sender.leave at left
      split at left
      · split at left
        · cases left
        · cases left
          apply inv.quiet later reach rfl _ stampedPast rfl rfl rfl
          intro i spin
          cases spin
      · cases left
    | offer answer =>
      simp only [TimedAct.handles, TimedAct.stamps, List.append_nil, Bool.false_eq_true, if_false]
      simp only [TimedAct.act, step] at moved
      split at moved
      · rename_i m next spinning
        cases moved
        cases answer with
        | false =>
          simp only [Measured.sends, List.append_nil]
          exact inv.quiet later reach rfl inv.spinning stampedPast rfl rfl rfl
        | true =>
          unfold Sender.offer at spinning
          split at spinning
          · rename_i i pc
            cases spinning
            obtain ⟨last, is_last, stamp⟩ := inv.spinning i pc
            simp only [Measured.sends, pc, is_last]
            refine inv.send later reach (some last) _ ?_ ?_ rfl ?_ rfl rfl rfl
            · rw [Message.stamp, stamp]
              rfl
            · rintro x ⟨⟩
              exact stampedPast last (List.mem_of_getLast? is_last)
            · intro j spin
              cases spin
          · rename_i pc
            cases spinning
            simp only [Measured.sends, pc]
            refine inv.send later reach none endMessage rfl ?_ rfl ?_ rfl rfl rfl
            · intro x is_some
              cases is_some
            · intro j spin
              cases spin
          · cases spinning
      · cases moved
    | nanoTime =>
      simp only [Measured.sends, TimedAct.handles, TimedAct.stamps, List.append_nil,
        Bool.false_eq_true, if_false]
      obtain ⟨sender, read, rfl⟩ := Option.map_eq_some_iff.mp moved
      have quiet : ∀ i, sender.pc ≠ .offer i := by
        intro i spin
        unfold Sender.nanoTime at read
        split at read
        · cases read
          cases spin
        · split at read
          · rename_i j reading pc _
            cases read
            rw [pc] at spin
            cases spin
          · cases read
            cases spin
        · cases read
      exact inv.quiet later reach rfl (fun i spin => absurd spin (quiet i)) stampedPast rfl rfl rfl
    | receive =>
      simp only [Measured.sends, TimedAct.handles, TimedAct.stamps, List.append_nil,
        Bool.false_eq_true, if_false]
      simp only [TimedAct.act, step] at moved
      split at moved
      · cases moved
        exact inv.quiet later reach rfl inv.spinning stampedPast rfl rfl rfl
      · cases moved
    | offerBack answer =>
      simp only [Measured.sends, TimedAct.handles, TimedAct.stamps, List.append_nil,
        Bool.false_eq_true, if_false]
      simp only [TimedAct.act, step] at moved
      split at moved
      · rename_i m spinning
        cases moved
        refine inv.quiet later reach rfl inv.spinning stampedPast ?_ rfl rfl
        exact (Topic.offer_accepted _ m answer).1
      · cases moved
    | handleBack =>
      simp only [Measured.sends, TimedAct.handles, TimedAct.stamps, List.append_nil, if_true,
        Bool.false_eq_true, if_false]
      exact inv.handle later moved
  · cases timed_move

theorem latencyInv_initial (start : Int) : LatencyInv args (Measured.initial start : Measured D) where
  trip := .start
  stamps := rfl
  spinning i spin := by cases spin
  stampedPast x member := by cases member
  sentPast x member := by cases member
  count := rfl
  log := rfl
  forward trip member := by cases member
  contained _ := rfl

end

/-- The recorded latencies of a round are its round-trip times. -/
theorem recordable_readings (round : List (Int × Int)) (forward : ∀ trip ∈ round, trip.1 ≤ trip.2)
    (short : ∀ trip ∈ round, trip.2 - trip.1 < 2 ^ 63) :
    (recordable (round.map readings)).map Int64.toInt = recordedTimes round := by
  have limit : (1000000000 : Int64).toInt = 1000000000 := rfl
  induction round with
  | nil => rfl
  | cons trip round ih =>
    have rest := ih (fun trip member => forward trip (List.mem_cons_of_mem _ member))
      (fun trip member => short trip (List.mem_cons_of_mem _ member))
    have ahead := forward trip List.mem_cons_self
    have elapsed : ((readings trip).2 - (readings trip).1).toInt = trip.2 - trip.1 :=
      Java.Int64.toInt_sub_ofInt ahead (short trip List.mem_cons_self)
    have nonneg : (0 : Int) ≤ trip.2 - trip.1 := by omega
    unfold recordable recordedTimes at rest ⊢
    simp only [List.map_cons, List.filter_cons, elapsed, nonneg, decide_true, Bool.true_and,
      Int64.lt_iff_toInt_lt, limit] at rest ⊢
    split
    · rw [List.map_cons, elapsed, rest]
    · exact rest

/-- In every run on a clock that does not go back, no event is handled before it
was stamped; as long as no echo takes 2^63 nanoseconds, nothing escapes from the
'back' subscriber, and the histograms hold, round by round and in order, the
round-trip times below one second of the sampled events, whether or not the
reading wraps in between. -/
theorem latencies_measured [JDouble D] {args : Nat → RunArgs} {start : Int} {s : Measured D}
    (reach : Reachable (measuredStep args) (.initial start) s) :
    s.sentAt.map (Option.map Int64.ofInt) = s.timed.trip.stream.accepted.map Message.stamp ∧
      s.handledAt.length = s.timed.trip.back.delivered ∧
      (∀ trip, some trip ∈ s.roundTrips → trip.1 ≤ trip.2) ∧
      ((∀ trip, some trip ∈ s.roundTrips → trip.2 - trip.1 < 2 ^ 63) →
        s.timed.trip.handler.escaped = [] ∧
        s.timed.trip.handler.dumped.map (fun histogram => histogram.values.map Int64.toInt) =
          (splitRounds s.roundTrips).1.map recordedTimes ∧
        s.timed.trip.handler.hi.values.map Int64.toInt =
          recordedTimes (splitRounds s.roundTrips).2) := by
  have inv : LatencyInv args s := reach.invariant (LatencyInv args) (latencyInv_initial start)
    fun _ _ _ inv move => latencyInv_step inv move
  obtain ⟨-, -, handler⟩ := reachable_inv inv.trip
  refine ⟨inv.stamps, inv.count, inv.forward, fun short => ⟨inv.contained short, ?_, ?_⟩⟩
  · have dumped := handler.dumped
    rw [inv.log, splitRounds_map, List.map_map] at dumped
    have values := congrArg (List.map (List.map Int64.toInt)) dumped
    rw [List.map_map, List.map_map] at values
    refine values.trans (List.map_congr_left fun round member => ?_)
    have items : ∀ trip ∈ round, some trip ∈ s.roundTrips :=
      fun trip within => mem_rounds.mp (.inl ⟨round, member, within⟩)
    exact recordable_readings round (fun trip within => inv.forward trip (items trip within))
      fun trip within => short trip (items trip within)
  · have items : ∀ trip ∈ (splitRounds s.roundTrips).2, some trip ∈ s.roundTrips :=
      fun trip within => mem_rounds.mp (.inr within)
    rw [handler.recording, inv.log, splitRounds_map]
    exact recordable_readings _ (fun trip within => inv.forward trip (items trip within))
      fun trip within => short trip (items trip within)

/-- Ten events, the last one stamped 2 nanoseconds before the reading wraps; its
echo is handled 5 nanoseconds after. -/
def wrappingEcho : List (Int × TimedAct Exact) :=
  let event (k : Nat) : List (Int × TimedAct Exact) :=
    [.fill (.finite k), .offer true, .nanoTime, .nanoTime, .receive].map fun act => (2 ^ 63 - 47 + 5 * k, act)
  (List.range 10).flatMap event ++ [(2 ^ 63 + 4, .offerBack true), (2 ^ 63 + 5, .handleBack)]

theorem latencies_measured_wrapping :
    ∃ s : Measured Exact, exec (measuredStep fun _ => { pauseNanos := 0, numEvents := 10 }) (.initial 0)
        wrappingEcho = some s ∧
      s.roundTrips = [some (2 ^ 63 - 2, 2 ^ 63 + 5)] ∧
      s.timed.trip.handler.hi.values.map Int64.toInt = [7] := by
  have ran : (exec (measuredStep fun _ => { pauseNanos := 0, numEvents := 10 }) (.initial 0)
      wrappingEcho).map Measured.roundTrips = some [some (2 ^ 63 - 2, 2 ^ 63 + 5)] := by decide +kernel
  obtain ⟨s, run, trips⟩ := Option.map_eq_some_iff.mp ran
  obtain ⟨-, -, -, measured⟩ := latencies_measured (.of_exec wrappingEcho .start run)
  rw [trips] at measured
  refine ⟨s, run, trips, (measured ?_).2.2⟩
  simp

end StreamingPoc.Netfeed
