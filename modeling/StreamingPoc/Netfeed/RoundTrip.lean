import Mathlib.Data.List.Basic
import StreamingPoc.Lib.Rounds
import StreamingPoc.Netfeed.RoundTripModel

/-!
# Round-trip accounting

Three invariants, one per party and the topic it fills. `StreamInv` ties the
rounds on 'stream' to the sender's program point, `ReceiverInv` ties 'back' and
the sampler's counter to what the receiver took from 'stream', `HandlerInv` ties
the histograms to what the 'back' subscriber was given. The sampler counts over
all rounds: END does not reset it.
-/
namespace StreamingPoc.Netfeed

open StreamingPoc.Java StreamingPoc.Lib

variable {D : Type}

def Message.event : Message D → Option (MarketEvent D)
  | .marketEvent event => some event
  | .structString _ => none

theorem Message.stamp_eq (m : Message D) :
    m.stamp = m.event.map MarketEvent.sendTimeStampNanos := by
  cases m <;> rfl

/-- The market events of the current `run` whose offer was accepted. -/
def SenderPc.sent (args : RunArgs) : SenderPc → Nat
  | .loop i | .offer i => i
  | .clock i | .pause i _ => i + 1
  | .offerEnd => args.count

def SenderPc.InRange (args : RunArgs) : SenderPc → Prop
  | .loop i => i ≤ args.count
  | .offer i | .clock i | .pause i _ => i < args.count
  | .offerEnd => True

theorem SenderPc.sent_le_count {args : RunArgs} {pc : SenderPc} (inRange : pc.InRange args) :
    pc.sent args ≤ args.count := by
  cases pc with
  | loop i => exact inRange
  | offer i => exact Nat.le_of_lt inRange
  | clock i => exact inRange
  | pause i time => exact inRange
  | offerEnd => exact Nat.le_refl _

/-- The latencies of a round that pass the guard and the histogram's range check. -/
def recordable (round : List (Int64 × Int64)) : List Int64 :=
  (round.map fun given => given.2 - given.1).filter fun value =>
    0 ≤ value.toInt && value < 1000000000

structure StreamInv (args : Nat → RunArgs) (s : RoundTrip D) : Prop where
  ended : (splitRounds (s.stream.accepted.map Message.event)).1.map List.length =
    (List.range s.sender.round).map fun r => (args r).count
  current : (splitRounds (s.stream.accepted.map Message.event)).2.length =
    s.sender.pc.sent (args s.sender.round)
  inRange : s.sender.pc.InRange (args s.sender.round)
  onlyEnd : ∀ m ∈ s.stream.accepted, m.event = none → m = endMessage

structure ReceiverInv (s : RoundTrip D) : Prop where
  taken : s.stream.delivered ≤ s.stream.accepted.length
  echoed : (s.back.accepted ++ s.receiver.offering.toList).map Message.stamp =
    sample 10 0 ((s.stream.accepted.take s.stream.delivered).map Message.stamp)
  counter : s.receiver.count =
    items ((s.stream.accepted.take s.stream.delivered).map Message.stamp) % 10
  onlyEnd : ∀ m ∈ s.back.accepted ++ s.receiver.offering.toList,
    m.event = none → m = endMessage

structure HandlerInv (s : RoundTrip D) : Prop where
  taken : s.back.delivered ≤ s.back.accepted.length
  log : s.handled.map (Option.map Prod.fst) =
    (s.back.accepted.take s.back.delivered).map Message.stamp
  dumped : s.handler.dumped.map Histogram.values = (splitRounds s.handled).1.map recordable
  recording : s.handler.hi.values = recordable (splitRounds s.handled).2
  range : 1000000000 ≤ s.handler.hi.highest

theorem Topic.next_eq_some {topic : Topic D} {m : Message D} (found : topic.next = some m) :
    topic.delivered < topic.accepted.length ∧
      topic.accepted.take (topic.delivered + 1) = topic.accepted.take topic.delivered ++ [m] := by
  obtain ⟨below, rfl⟩ := List.getElem?_eq_some_iff.mp found
  exact ⟨below, by rw [List.take_append_getElem below]⟩

/-- What was delivered is not changed by a later offer. -/
theorem Topic.offer_accepted (topic : Topic D) (m : Message D) (answer : Bool) :
    (topic.offer m answer).delivered = topic.delivered ∧
      (topic.offer m answer).accepted = topic.accepted ++ if answer then [m] else [] := by
  cases answer <;> simp [Topic.offer]

/-- The sender moves within its round without sending. -/
def Sender.Quiet (args : RunArgs) (s t : Sender D) : Prop :=
  s.pc.InRange args → t.round = s.round ∧ t.pc.sent args = s.pc.sent args ∧ t.pc.InRange args

theorem Sender.fill_quiet [JDouble D] {args : RunArgs} {s t : Sender D} {bidPrc : D} {now : Int64}
    (done : s.fill args bidPrc now = some t) : s.Quiet args t := by
  intro inRange
  obtain ⟨round, pc, struct⟩ := s
  cases pc with
  | loop i =>
    simp only [Sender.fill] at done
    split at done
    · rename_i below
      cases done
      have bound : i < args.count := by
        rw [RunArgs.count]
        omega
      exact ⟨rfl, rfl, bound⟩
    · cases done
  | _ => cases done

theorem Sender.leave_quiet {args : RunArgs} {s t : Sender D} (done : s.leave args = some t) :
    s.Quiet args t := by
  intro inRange
  obtain ⟨round, pc, struct⟩ := s
  cases pc with
  | loop i =>
    simp only [Sender.leave] at done
    split at done
    · cases done
    · rename_i past
      cases done
      have bound : i ≤ args.count := inRange
      have all : args.count = i := by
        rw [RunArgs.count] at bound ⊢
        omega
      exact ⟨rfl, all, trivial⟩
  | _ => cases done

theorem Sender.nanoTime_quiet {args : RunArgs} {s t : Sender D} {now : Int64}
    (done : s.nanoTime args now = some t) : s.Quiet args t := by
  intro inRange
  obtain ⟨round, pc, struct⟩ := s
  cases pc with
  | clock i =>
    cases done
    exact ⟨rfl, rfl, inRange⟩
  | pause i time =>
    simp only [Sender.nanoTime] at done
    split at done
    · cases done
      exact ⟨rfl, rfl, inRange⟩
    · cases done
      exact ⟨rfl, rfl, inRange⟩
  | _ => cases done

/-- An accepted offer is one more event of the round, or the END that closes it. -/
theorem Sender.offer_spec [JDouble D] {args : RunArgs} {s t : Sender D} {m : Message D}
    (done : s.offer = some (m, t)) (inRange : s.pc.InRange args) :
    (∃ event, m = .marketEvent event ∧ t.round = s.round ∧
        t.pc.sent args = s.pc.sent args + 1 ∧ t.pc.InRange args) ∨
      (m = endMessage ∧ t.round = s.round + 1 ∧ t.pc = .loop 0 ∧
        s.pc.sent args = args.count) := by
  obtain ⟨round, pc, struct⟩ := s
  cases pc with
  | offer i =>
    cases done
    exact .inl ⟨struct, rfl, rfl, rfl, inRange⟩
  | offerEnd =>
    cases done
    exact .inr ⟨rfl, rfl, rfl, rfl⟩
  | _ => cases done

/-- Everything one step of the round trip can do. -/
inductive Moves [JDouble D] (args : Nat → RunArgs) (s : RoundTrip D) : RoundTrip D → Prop where
  | sender (next : Sender D) (quiet : s.sender.Quiet (args s.sender.round) next) :
      Moves args s { s with sender := next }
  | offer (m : Message D) (next : Sender D) (answer : Bool)
      (spinning : s.sender.offer = some (m, next)) :
      Moves args s { s with
        stream := s.stream.offer m answer
        sender := if answer then next else s.sender }
  | receive (m : Message D) (idle : s.receiver.offering = none) (found : s.stream.next = some m) :
      Moves args s { s with
        stream := { s.stream with delivered := s.stream.delivered + 1 }
        receiver := s.receiver.messageReceived m }
  | offerBack (m : Message D) (answer : Bool) (spinning : s.receiver.offering = some m) :
      Moves args s { s with
        back := s.back.offer m answer
        receiver := if answer then { s.receiver with offering := none } else s.receiver }
  | handleBack (m : Message D) (now : Int64) (found : s.back.next = some m) :
      Moves args s { s with
        back := { s.back with delivered := s.back.delivered + 1 }
        handler := s.handler.messageReceived now m
        handled := s.handled ++ [m.stamp.map fun sent => (sent, now)] }

theorem step_cases [JDouble D] {args : Nat → RunArgs} {s t : RoundTrip D} {act : Act D}
    (move : step args s act = some t) : Moves args s t := by
  cases act with
  | fill bidPrc now =>
    obtain ⟨next, done, rfl⟩ := Option.map_eq_some_iff.mp move
    exact .sender next (Sender.fill_quiet done)
  | leave =>
    obtain ⟨next, done, rfl⟩ := Option.map_eq_some_iff.mp move
    exact .sender next (Sender.leave_quiet done)
  | nanoTime now =>
    obtain ⟨next, done, rfl⟩ := Option.map_eq_some_iff.mp move
    exact .sender next (Sender.nanoTime_quiet done)
  | offer answer =>
    simp only [step] at move
    split at move
    · rename_i m next spinning
      cases move
      exact .offer m next answer spinning
    · cases move
  | receive =>
    simp only [step] at move
    split at move
    · rename_i m idle found
      cases move
      exact .receive m idle found
    · cases move
  | offerBack answer =>
    simp only [step] at move
    split at move
    · rename_i m spinning
      cases move
      exact .offerBack m answer spinning
    · cases move
  | handleBack now =>
    simp only [step] at move
    split at move
    · rename_i m found
      cases move
      exact .handleBack m now found
    · cases move

/-! ### The sender and 'stream' -/

/-- A step that leaves 'stream' alone keeps `StreamInv` if the sender stays in
its round with as many events sent. -/
theorem StreamInv.of_sender {args : Nat → RunArgs} {s t : RoundTrip D} (inv : StreamInv args s)
    (stream : t.stream.accepted = s.stream.accepted) (round : t.sender.round = s.sender.round)
    (sent : t.sender.pc.sent (args s.sender.round) = s.sender.pc.sent (args s.sender.round))
    (inRange : t.sender.pc.InRange (args s.sender.round)) : StreamInv args t where
  ended := by rw [stream, round]; exact inv.ended
  current := by rw [stream, round, sent]; exact inv.current
  inRange := by rw [round]; exact inRange
  onlyEnd := by rw [stream]; exact inv.onlyEnd

theorem streamInv_step [JDouble D] {args : Nat → RunArgs} {s t : RoundTrip D}
    (inv : StreamInv args s) (moves : Moves args s t) : StreamInv args t := by
  cases moves with
  | sender next quiet =>
    obtain ⟨round, sent, inRange⟩ := quiet inv.inRange
    exact inv.of_sender rfl round sent inRange
  | offer m next answer spinning =>
    cases answer with
    | false => exact inv.of_sender rfl rfl rfl inv.inRange
    | true =>
      rcases Sender.offer_spec spinning inv.inRange with
        ⟨event, rfl, round, sent, inRange⟩ | ⟨rfl, round, pc, all⟩
      · refine ⟨?_, ?_, by simpa [round] using inRange, ?_⟩
        · simpa [Topic.offer, Message.event, round] using inv.ended
        · simp [Topic.offer, Message.event, round, sent, inv.current]
        · intro m member
          rcases List.mem_append.mp member with old | new
          · exact inv.onlyEnd m old
          · simp only [List.mem_singleton] at new
            simp [new, Message.event]
      · refine ⟨?_, ?_, ?_, ?_⟩
        · have last := inv.current
          rw [all] at last
          simp [Topic.offer, Message.event, endMessage, round, List.range_succ, inv.ended, last]
        · simp [Topic.offer, Message.event, endMessage, pc, SenderPc.sent]
        · simp [pc, SenderPc.InRange]
        · intro m member
          rcases List.mem_append.mp member with old | new
          · exact inv.onlyEnd m old
          · simp only [List.mem_singleton] at new
            exact fun _ => new
  | receive m idle found => exact inv.of_sender rfl rfl rfl inv.inRange
  | offerBack m answer spinning => exact inv.of_sender rfl rfl rfl inv.inRange
  | handleBack m now found => exact inv.of_sender rfl rfl rfl inv.inRange

/-! ### The receiver and 'back' -/

/-- The invariant does not read the sender nor the 'back' subscriber. -/
theorem ReceiverInv.congr {s t : RoundTrip D} (inv : ReceiverInv s) (stream : t.stream = s.stream)
    (receiver : t.receiver = s.receiver) (back : t.back.accepted = s.back.accepted) :
    ReceiverInv t where
  taken := by rw [stream]; exact inv.taken
  echoed := by rw [stream, receiver, back]; exact inv.echoed
  counter := by rw [stream, receiver]; exact inv.counter
  onlyEnd := by rw [receiver, back]; exact inv.onlyEnd

/-- Messages that are still on their way do not matter to the receiver. -/
theorem ReceiverInv.of_offer {s t : RoundTrip D} (inv : ReceiverInv s) (m : Message D)
    (answer : Bool) (stream : t.stream = s.stream.offer m answer)
    (receiver : t.receiver = s.receiver) (back : t.back = s.back) : ReceiverInv t := by
  obtain ⟨delivered, accepted⟩ := s.stream.offer_accepted m answer
  have same : t.stream.accepted.take t.stream.delivered =
      s.stream.accepted.take s.stream.delivered := by
    rw [stream, delivered, accepted, List.take_append_of_le_length inv.taken]
  refine ⟨?_, ?_, ?_, ?_⟩
  · rw [stream, delivered, accepted, List.length_append]
    exact Nat.le_trans inv.taken (Nat.le_add_right _ _)
  · rw [same, receiver, back]
    exact inv.echoed
  · rw [same, receiver]
    exact inv.counter
  · rw [receiver, back]
    exact inv.onlyEnd

/-- Taking one message: the sampler's counter is the number of events taken so
far modulo 10, so it reaches 10 at every event whose number is a multiple of 10. -/
theorem Receiver.messageReceived_spec (r : Receiver D) (taken : List (Option Int64))
    (m : Message D) (idle : r.offering = none) (counter : r.count = items taken % 10) :
    (r.messageReceived m).count = items (taken ++ [m.stamp]) % 10 ∧
      sample 10 0 (taken ++ [m.stamp]) =
        sample 10 0 taken ++ (r.messageReceived m).offering.toList.map Message.stamp ∧
      ∀ out ∈ (r.messageReceived m).offering.toList, out.event = none → out = m := by
  cases m with
  | structString text =>
    refine ⟨?_, ?_, ?_⟩
    · simpa [Receiver.messageReceived, Message.stamp] using counter
    · simp [Receiver.messageReceived, Message.stamp]
    · intro out member _
      simpa [Receiver.messageReceived] using member
  | marketEvent event =>
    by_cases tenth : r.count + 1 = 10
    · have number : (items taken + 1) % 10 = 0 := by omega
      simp only [Receiver.messageReceived, Receiver.update, tenth, if_true, Message.stamp]
      refine ⟨?_, ?_, ?_⟩
      · simp [number]
      · simp [number, Message.stamp]
      · intro out member noEvent
        simp only [Option.toList_some, List.mem_singleton] at member
        rw [member] at noEvent
        cases noEvent
    · have number : (items taken + 1) % 10 ≠ 0 := by omega
      simp only [Receiver.messageReceived, Receiver.update, tenth, if_false, Message.stamp, idle]
      refine ⟨?_, ?_, ?_⟩
      · rw [items_item]
        omega
      · simp [number]
      · intro out member
        simp at member

theorem receiverInv_step [JDouble D] {args : Nat → RunArgs} {s t : RoundTrip D}
    (ends : ∀ m ∈ s.stream.accepted, m.event = none → m = endMessage)
    (inv : ReceiverInv s) (moves : Moves args s t) : ReceiverInv t := by
  cases moves with
  | sender next quiet => exact inv.congr rfl rfl rfl
  | offer m next answer spinning => exact inv.of_offer m answer rfl rfl rfl
  | receive m idle found =>
    obtain ⟨below, taken⟩ := Topic.next_eq_some found
    obtain ⟨counter, echoed, onlyEnd⟩ := s.receiver.messageReceived_spec _ m idle inv.counter
    have before := inv.echoed
    rw [idle, Option.toList_none, List.append_nil] at before
    refine ⟨below, ?_, ?_, ?_⟩
    · simp only [taken, List.map_append, List.map_cons, List.map_nil, echoed, before]
    · simpa only [taken, List.map_append, List.map_cons, List.map_nil] using counter
    · intro out member noEvent
      rcases List.mem_append.mp member with old | new
      · exact inv.onlyEnd out (List.mem_append_left _ old) noEvent
      · obtain rfl := onlyEnd out new noEvent
        exact ends out (List.mem_of_getElem? found) noEvent
  | offerBack m answer spinning =>
    cases answer with
    | false => exact inv.congr rfl rfl rfl
    | true =>
      obtain ⟨taken, echoed, counter, onlyEnd⟩ := inv
      rw [spinning] at echoed onlyEnd
      refine ⟨taken, ?_, counter, ?_⟩
      · simpa [Topic.offer] using echoed
      · simpa [Topic.offer] using onlyEnd
  | handleBack m now found => exact inv.congr rfl rfl rfl

/-! ### The 'back' subscriber and its histograms -/

/-- The invariant does not read the sender nor the receiver. -/
theorem HandlerInv.congr {s t : RoundTrip D} (inv : HandlerInv s) (back : t.back = s.back)
    (handler : t.handler = s.handler) (handled : t.handled = s.handled) : HandlerInv t where
  taken := by rw [back]; exact inv.taken
  log := by rw [back, handled]; exact inv.log
  dumped := by rw [handler, handled]; exact inv.dumped
  recording := by rw [handler, handled]; exact inv.recording
  range := by rw [handler]; exact inv.range

/-- One message of the 'back' topic: END closes the histogram, an event is
recorded exactly when it is recordable. -/
theorem BackHandler.messageReceived_spec (h : BackHandler) (log : List (Option (Int64 × Int64)))
    (now : Int64) (m : Message D)
    (dumped : h.dumped.map Histogram.values = (splitRounds log).1.map recordable)
    (recording : h.hi.values = recordable (splitRounds log).2)
    (range : 1000000000 ≤ h.hi.highest) :
    let h' := h.messageReceived now m
    let log' := log ++ [m.stamp.map fun sent => (sent, now)]
    h'.dumped.map Histogram.values = (splitRounds log').1.map recordable ∧
      h'.hi.values = recordable (splitRounds log').2 ∧ 1000000000 ≤ h'.hi.highest := by
  cases m with
  | structString text =>
    refine ⟨?_, ?_, ?_⟩
    · simp [BackHandler.messageReceived, Message.stamp, dumped, recording]
    · simp [BackHandler.messageReceived, Message.stamp, Histogram.create, recordable]
    · exact Int.le_of_lt (show (1000000000 : Int) < secondsToNanos 2 by decide)
  | marketEvent mdata =>
    have limit : (1000000000 : Int64).toInt = 1000000000 := rfl
    simp only [Message.stamp, Option.map_some, splitRounds_item, BackHandler.messageReceived]
    generalize hvalue : now - mdata.sendTimeStampNanos = value
    have grown : recordable ((splitRounds log).2 ++ [(mdata.sendTimeStampNanos, now)]) =
        h.hi.values ++ if 0 ≤ value.toInt ∧ value < 1000000000 then [value] else [] := by
      simp only [recording, recordable, List.map_append, List.map_cons, List.map_nil, hvalue,
        List.filter_append, List.filter_cons, List.filter_nil, Bool.and_eq_true,
        decide_eq_true_eq]
    rw [grown]
    by_cases guard : value < 1000000000
    · have below := Int64.lt_iff_toInt_lt.mp guard
      rw [limit] at below
      by_cases negative : value.toInt < 0
      · have thrown : h.hi.recordValue value = .error (.arrayIndexOutOfBounds value) :=
          Histogram.recordValue_outside fun inRange => Int.not_le.mpr negative inRange.1
        simp only [guard, if_true, thrown, Int.not_le.mpr negative, false_and, if_false,
          List.append_nil]
        exact ⟨dumped, trivial, range⟩
      · have inRange : h.hi.InRange value := ⟨Int.not_lt.mp negative, by omega⟩
        have recorded := Histogram.recordValue_inRange inRange
        simp only [guard, if_true, recorded, Int.not_lt.mp negative, and_self]
        exact ⟨dumped, trivial, range⟩
    · simp only [guard, if_false, and_false, List.append_nil]
      exact ⟨dumped, trivial, range⟩

theorem handlerInv_step [JDouble D] {args : Nat → RunArgs} {s t : RoundTrip D}
    (inv : HandlerInv s) (moves : Moves args s t) : HandlerInv t := by
  cases moves with
  | sender next quiet => exact inv.congr rfl rfl rfl
  | offer m next answer spinning => exact inv.congr rfl rfl rfl
  | receive m idle found => exact inv.congr rfl rfl rfl
  | offerBack m answer spinning =>
    obtain ⟨delivered, accepted⟩ := s.back.offer_accepted m answer
    refine ⟨?_, ?_, inv.dumped, inv.recording, inv.range⟩
    · simp only [delivered, accepted, List.length_append]
      exact Nat.le_trans inv.taken (Nat.le_add_right _ _)
    · simp only [delivered, accepted, List.take_append_of_le_length inv.taken]
      exact inv.log
  | handleBack m now found =>
    obtain ⟨below, taken⟩ := Topic.next_eq_some found
    obtain ⟨dumped, recording, range⟩ := s.handler.messageReceived_spec s.handled now m
      inv.dumped inv.recording inv.range
    refine ⟨below, ?_, dumped, recording, range⟩
    simp only [taken, List.map_append, inv.log]
    cases m <;> rfl

/-! ### Whole runs -/

variable [JDouble D]

theorem streamInv_initial (args : Nat → RunArgs) :
    StreamInv args (RoundTrip.initial : RoundTrip D) where
  ended := rfl
  current := rfl
  inRange := Nat.zero_le _
  onlyEnd m member := by simp [RoundTrip.initial] at member

theorem receiverInv_initial : ReceiverInv (RoundTrip.initial : RoundTrip D) where
  taken := Nat.le_refl _
  echoed := rfl
  counter := rfl
  onlyEnd m member := by simp [RoundTrip.initial] at member

theorem handlerInv_initial : HandlerInv (RoundTrip.initial : RoundTrip D) where
  taken := Nat.le_refl _
  log := rfl
  dumped := rfl
  recording := rfl
  range := Int.le_of_lt (show (1000000000 : Int) < secondsToNanos 10 by decide)

theorem reachable_inv {args : Nat → RunArgs} {s : RoundTrip D}
    (reach : Reachable (step args) RoundTrip.initial s) :
    StreamInv args s ∧ ReceiverInv s ∧ HandlerInv s := by
  refine reach.invariant (fun s => StreamInv args s ∧ ReceiverInv s ∧ HandlerInv s)
    ⟨streamInv_initial args, receiverInv_initial, handlerInv_initial⟩ ?_
  rintro s act t ⟨stream, receiver, handler⟩ move
  have moves := step_cases move
  exact ⟨streamInv_step stream moves, receiverInv_step stream.onlyEnd receiver moves,
    handlerInv_step handler moves⟩

omit [JDouble D] in
/-- Rounds of market events, each closed by one END, and the events after it. -/
theorem accepted_eq_rounds (accepted : List (Message D))
    (onlyEnd : ∀ m ∈ accepted, m.event = none → m = endMessage) :
    accepted = ((splitRounds (accepted.map Message.event)).1.flatMap fun events =>
        events.map .marketEvent ++ [endMessage]) ++
      (splitRounds (accepted.map Message.event)).2.map .marketEvent := by
  let back : Option (MarketEvent D) → Message D := fun o => o.elim endMessage .marketEvent
  have restored : accepted = (accepted.map Message.event).map back := by
    rw [List.map_map, eq_comm, List.map_congr_left (g := id), List.map_id]
    intro m member
    cases hm : m.event with
    | none =>
      obtain rfl := onlyEnd m member hm
      rfl
    | some event =>
      cases m with
      | marketEvent e =>
        cases hm
        rfl
      | structString text => cases hm
  conv_lhs => rw [restored, ← joinRounds_splitRounds (accepted.map Message.event)]
  simp [joinRounds, List.map_flatMap, back, Function.comp_def]

omit [JDouble D] in
/-- The echoes accepted so far are the first ones of those due. -/
theorem ReceiverInv.echoes_due {s : RoundTrip D} (inv : ReceiverInv s) :
    s.back.accepted.map Message.stamp <+: sample 10 0 (s.stream.accepted.map Message.stamp) := by
  have taken : s.back.accepted.map Message.stamp <+:
      sample 10 0 ((s.stream.accepted.take s.stream.delivered).map Message.stamp) := by
    rw [← inv.echoed, List.map_append]
    exact List.prefix_append _ _
  refine taken.trans ?_
  conv_rhs => rw [← List.take_append_drop s.stream.delivered s.stream.accepted]
  rw [List.map_append, sample_append]
  exact List.prefix_append _ _

omit [JDouble D] in
/-- An ended round of the 'back' log holds the sampled events of the same round
on 'stream', numbered over all rounds. -/
theorem ended_log_of_round {s : RoundTrip D} (receiver : ReceiverInv s) (handler : HandlerInv s)
    {r : Nat} {log : List (Int64 × Int64)} (ended : (splitRounds s.handled).1[r]? = some log) :
    ∃ events, (splitRounds (s.stream.accepted.map Message.event)).1[r]? = some events ∧
      log.map Prod.fst = everyNth 10
        (((splitRounds (s.stream.accepted.map Message.event)).1.take r).map List.length).sum
        (events.map MarketEvent.sendTimeStampNanos) := by
  have stamps : s.stream.accepted.map Message.stamp =
      (s.stream.accepted.map Message.event).map (Option.map MarketEvent.sendTimeStampNanos) := by
    simp [Message.stamp_eq]
  obtain ⟨sameLength, rounds, -⟩ := splitRounds_sample 10 (s.stream.accepted.map Message.stamp)
  have due : s.handled.map (Option.map Prod.fst) <+:
      sample 10 0 (s.stream.accepted.map Message.stamp) := by
    rw [handler.log]
    exact ((List.take_prefix _ _).map _).trans receiver.echoes_due
  obtain ⟨rest, whole⟩ := due
  have logs : (splitRounds (s.handled.map (Option.map Prod.fst))).1[r]? =
      some (log.map Prod.fst) := by
    simp [splitRounds_map, ended]
  have sampled := ended_getElem? rest logs
  rw [whole] at sampled
  rw [stamps, splitRounds_map] at sameLength rounds
  rw [stamps] at sampled
  obtain ⟨below, -⟩ := List.getElem?_eq_some_iff.mp sampled
  rw [sameLength, List.length_map] at below
  refine ⟨_, List.getElem?_eq_getElem below, ?_⟩
  have expected := rounds r _ (by rw [List.getElem?_map, List.getElem?_eq_getElem below]; rfl)
  rw [expected, Option.some.injEq] at sampled
  rw [← sampled]
  simp [← List.map_take, Function.comp_def]

/-- Round-trip accounting. 'stream' carries round by round the market events of
one call of `run` and one END; 'back' carries, in order, the send timestamps of
the events whose number over all rounds is a multiple of 10 and an END for each
END; the histogram handed over at the end of a round holds the recordable
latencies of the sampled events of that round, and of no other. -/
theorem round_trip_accounted {args : Nat → RunArgs} {s : RoundTrip D}
    (reach : Reachable (step args) RoundTrip.initial s) :
    ∃ (rounds : List (List (MarketEvent D))) (current : List (MarketEvent D)),
      (s.stream.accepted =
          (rounds.flatMap fun events => events.map .marketEvent ++ [endMessage]) ++
            current.map .marketEvent ∧
        rounds.map List.length = (List.range s.sender.round).map (fun r => (args r).count) ∧
        current.length ≤ (args s.sender.round).count) ∧
      (s.back.accepted.map Message.stamp <+:
          sample 10 0 (s.stream.accepted.map Message.stamp) ∧
        (s.stream.delivered = s.stream.accepted.length → s.receiver.offering = none →
          s.back.accepted.map Message.stamp =
            sample 10 0 (s.stream.accepted.map Message.stamp)) ∧
        ∀ m ∈ s.back.accepted, m.stamp = none → m = endMessage) ∧
      (s.handled.map (Option.map Prod.fst) =
          (s.back.accepted.take s.back.delivered).map Message.stamp ∧
        s.handler.dumped.map Histogram.values = (splitRounds s.handled).1.map recordable ∧
        s.handler.hi.values = recordable (splitRounds s.handled).2 ∧
        ∀ r log, (splitRounds s.handled).1[r]? = some log →
          ∃ events, rounds[r]? = some events ∧
            log.map Prod.fst = everyNth 10 ((rounds.take r).map List.length).sum
              (events.map MarketEvent.sendTimeStampNanos)) := by
  obtain ⟨stream, receiver, handler⟩ := reachable_inv reach
  refine ⟨(splitRounds (s.stream.accepted.map Message.event)).1,
    (splitRounds (s.stream.accepted.map Message.event)).2, ⟨?_, stream.ended, ?_⟩,
    ⟨receiver.echoes_due, ?_, ?_⟩, handler.log, handler.dumped, handler.recording, ?_⟩
  · exact accepted_eq_rounds s.stream.accepted stream.onlyEnd
  · rw [stream.current]
    exact SenderPc.sent_le_count stream.inRange
  · intro all idle
    have echoed := receiver.echoed
    rwa [idle, Option.toList_none, List.append_nil, all, List.take_length] at echoed
  · intro m member noStamp
    rw [Message.stamp_eq, Option.map_eq_none_iff] at noStamp
    exact receiver.onlyEnd m (List.mem_append_left _ member) noStamp
  · intro r log ended
    exact ended_log_of_round receiver handler ended

/-- One round of 10 events sent at 100, 200, …; the receiver's echo of the last
one is rejected once and reaches the back handler 50 nanoseconds later. -/
def oneRoundSchedule : List (Act Exact) :=
  let event (k : Nat) : List (Act Exact) :=
    [.fill (.finite k) (100 * Int64.ofNat (k + 1)), .offer true, .nanoTime 0, .nanoTime 0, .receive]
  (List.range 10).flatMap event ++
    [.offerBack false, .offerBack true, .leave, .offer true, .receive, .handleBack 1050,
      .offerBack true, .handleBack 1060]

theorem round_trip_accounted_one_round :
    ∃ s, exec (step fun _ => { pauseNanos := 0, numEvents := 10 }) RoundTrip.initial
        oneRoundSchedule = some s ∧
      s.handled = [some (1000, 1050), none] ∧
      s.handler.dumped.map Histogram.values = (splitRounds s.handled).1.map recordable := by
  have ran : (exec (step fun _ => { pauseNanos := 0, numEvents := 10 }) RoundTrip.initial
      oneRoundSchedule).map RoundTrip.handled = some [some (1000, 1050), none] := by
    decide +kernel
  obtain ⟨s, run, handled⟩ := Option.map_eq_some_iff.mp ran
  obtain ⟨_, _, -, -, -, dumped, -⟩ :=
    round_trip_accounted (.of_exec oneRoundSchedule .start run)
  exact ⟨s, run, handled, dumped⟩

end StreamingPoc.Netfeed
