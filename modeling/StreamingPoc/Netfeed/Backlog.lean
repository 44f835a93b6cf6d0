import StreamingPoc.Lib.WorkLeft
import StreamingPoc.Netfeed.RoundTrip

/-!
# Draining the round trip

The receiver and the 'back' subscriber work off what the sender got accepted, in
any order of their steps. The receiver takes no message while it spins on an
offer, so its progress hangs on the answers; a rejected offer changes nothing.
-/
namespace StreamingPoc.Netfeed

open StreamingPoc.Java StreamingPoc.Lib

variable {D : Type}

/-- A step of the receiver or of the 'back' subscriber. -/
def Act.Downstream : Act D → Prop
  | .receive | .offerBack _ | .handleBack _ => True
  | _ => False

/-- A rejected offer is no work. -/
def Act.works : Act D → Bool
  | .offerBack answer => answer
  | _ => true

/-- A message on 'stream' may still have to be taken, offered and handled. -/
def backlog (s : RoundTrip D) : Nat :=
  3 * (s.stream.accepted.length - s.stream.delivered) + 2 * s.receiver.offering.toList.length +
    (s.back.accepted.length - s.back.delivered)

/-- All that was accepted went the whole way: the 'back' subscriber was given the
sampled events and the ENDs, and handed a histogram over for each round. -/
structure Settled (s : RoundTrip D) : Prop where
  taken : s.stream.delivered = s.stream.accepted.length
  idle : s.receiver.offering = none
  echoed : s.back.accepted.map Message.stamp = sample 10 0 (s.stream.accepted.map Message.stamp)
  handled : s.handled.map (Option.map Prod.fst) =
    sample 10 0 (s.stream.accepted.map Message.stamp)
  reports : s.handler.dumped.length = s.sender.round

/-- The invariants, and that the sender stands still. -/
structure Draining (args : Nat → RunArgs) (start s : RoundTrip D) : Prop where
  stream : StreamInv args s
  receiver : ReceiverInv s
  handler : HandlerInv s
  sender : s.sender = start.sender
  accepted : s.stream.accepted = start.stream.accepted

section

variable [JDouble D] {args : Nat → RunArgs} {start s t : RoundTrip D}

/-- The downstream parties leave the sender and what it got accepted alone. -/
theorem downstream_frame {act : Act D} (downstream : act.Downstream) (move : step args s act = some t) :
    t.sender = s.sender ∧ t.stream.accepted = s.stream.accepted := by
  cases act with
  | receive =>
    simp only [step] at move
    split at move
    · cases move
      exact ⟨rfl, rfl⟩
    · cases move
  | offerBack answer =>
    simp only [step] at move
    split at move
    · cases move
      exact ⟨rfl, rfl⟩
    · cases move
  | handleBack now =>
    simp only [step] at move
    split at move
    · cases move
      exact ⟨rfl, rfl⟩
    · cases move
  | _ => cases downstream

theorem draining_keeps {act : Act D} (inv : Draining args start s) (downstream : act.Downstream)
    (move : step args s act = some t) : Draining args start t := by
  have moves := step_cases move
  obtain ⟨sender, accepted⟩ := downstream_frame downstream move
  refine ⟨streamInv_step inv.stream moves, receiverInv_step inv.stream.onlyEnd inv.receiver moves,
    handlerInv_step inv.handler moves, ?_, ?_⟩
  · rw [sender, inv.sender]
  · rw [accepted, inv.accepted]

omit [JDouble D] in
/-- The receiver has at most one message to offer. -/
theorem Receiver.offering_length_le (r : Receiver D) : r.offering.toList.length ≤ 1 := by
  cases r.offering <;> simp

theorem backlog_pays {act : Act D} (inv : Draining args start s) (downstream : act.Downstream)
    (move : step args s act = some t) :
    backlog t + (if act.works then 1 else 0) ≤ backlog s := by
  cases act with
  | receive =>
    simp only [step] at move
    split at move
    · rename_i m idle found
      cases move
      have below := (Topic.next_eq_some found).1
      have offers := (s.receiver.messageReceived m).offering_length_le
      simp only [backlog, Act.works, idle, Option.toList_none, List.length_nil, if_true]
      omega
    · cases move
  | offerBack answer =>
    simp only [step] at move
    split at move
    · rename_i m spinning
      cases move
      have taken := inv.handler.taken
      cases answer with
      | true =>
        simp only [backlog, Act.works, Topic.offer, spinning, if_true, List.length_append,
          List.length_singleton, Option.toList_none, Option.toList_some, List.length_nil]
        omega
      | false => simp [backlog, Act.works, Topic.offer, spinning]
    · cases move
  | handleBack now =>
    simp only [step] at move
    split at move
    · rename_i m found
      cases move
      have below := (Topic.next_eq_some found).1
      simp only [backlog, Act.works, if_true]
      omega
    · cases move
  | _ => cases downstream

theorem workLeft (args : Nat → RunArgs) (start : RoundTrip D) :
    WorkLeft (step args) (Draining args start) Act.Downstream Act.works backlog where
  keeps := draining_keeps
  pays := backlog_pays

/-- Where no working step is enabled downstream, all is settled. -/
theorem settled_of_stuck (inv : Draining args start s)
    (stuck : ∀ act : Act D, act.Downstream → act.works → step args s act = none) : Settled s := by
  have idle : s.receiver.offering = none := by
    have noOffer := stuck (.offerBack true) trivial rfl
    cases offering : s.receiver.offering with
    | none => rfl
    | some m => simp [step, offering] at noOffer
  have taken : s.stream.delivered = s.stream.accepted.length := by
    have noMessage := stuck .receive trivial rfl
    have bound := inv.receiver.taken
    cases found : s.stream.next with
    | none =>
      have past := List.getElem?_eq_none_iff.mp found
      omega
    | some m => simp [step, idle, found] at noMessage
  have handled_all : s.back.delivered = s.back.accepted.length := by
    have noEcho := stuck (.handleBack 0) trivial rfl
    have bound := inv.handler.taken
    cases found : s.back.next with
    | none =>
      have past := List.getElem?_eq_none_iff.mp found
      omega
    | some m => simp [step, found] at noEcho
  have echoed : s.back.accepted.map Message.stamp =
      sample 10 0 (s.stream.accepted.map Message.stamp) := by
    have echoes := inv.receiver.echoed
    rwa [idle, Option.toList_none, List.append_nil, taken, List.take_length] at echoes
  have handled : s.handled.map (Option.map Prod.fst) =
      sample 10 0 (s.stream.accepted.map Message.stamp) := by
    rw [inv.handler.log, handled_all, List.take_length, echoed]
  refine ⟨taken, idle, echoed, handled, ?_⟩
  have stamps : s.stream.accepted.map Message.stamp =
      (s.stream.accepted.map Message.event).map (Option.map MarketEvent.sendTimeStampNanos) := by
    simp [Message.stamp_eq]
  have dumps : s.handler.dumped.length =
      (splitRounds (s.handled.map (Option.map Prod.fst))).1.length := by
    rw [splitRounds_map, List.length_map, ← List.length_map (f := recordable), ← inv.handler.dumped,
      List.length_map]
  have rounds := congrArg List.length inv.stream.ended
  rw [List.length_map, List.length_map, List.length_range] at rounds
  rw [dumps, handled, (splitRounds_sample 10 _).1, stamps, splitRounds_map, List.length_map, rounds]

/-- From every reachable state the round trip drains while the sender stands
still: whatever the order of the receiver's and the 'back' subscriber's steps and
however often their offers are rejected, they make at most `backlog` other steps,
none of which waits for anything but an accepted offer, and then all is settled. -/
theorem round_trip_drains (reach : Reachable (step args) RoundTrip.initial s) :
    (∀ acts t, exec (step args) s acts = some t → (∀ act ∈ acts, act.Downstream) →
      backlog t + acts.countP Act.works ≤ backlog s ∧ t.sender = s.sender ∧
        t.stream.accepted = s.stream.accepted ∧
        ((∀ act : Act D, act.Downstream → act.works → step args t act = none) → Settled t)) ∧
      ∃ acts t, exec (step args) s acts = some t ∧ (∀ act ∈ acts, act.Downstream) ∧ Settled t := by
  obtain ⟨stream, receiver, handler⟩ := reachable_inv reach
  have inv : Draining args s s := ⟨stream, receiver, handler, rfl, rfl⟩
  constructor
  · intro acts t ran downstream
    obtain ⟨paid, drained⟩ := (workLeft args s).exec_pays inv downstream ran
    exact ⟨paid, drained.sender, drained.accepted, settled_of_stuck drained⟩
  · obtain ⟨acts, t, all, ran, stuck⟩ := (workLeft args s).exists_settled s inv
    have downstream : ∀ act ∈ acts, act.Downstream := fun act member => (all act member).1
    have drained := ((workLeft args s).exec_pays inv downstream ran).2
    exact ⟨acts, t, ran, downstream, settled_of_stuck drained stuck⟩

end

/-- Ten events and an END on 'stream', of which the receiver has taken nothing. -/
def sentOnly : List (Act Exact) :=
  let event (k : Nat) : List (Act Exact) :=
    [.fill (.finite k) (100 * Int64.ofNat (k + 1)), .offer true, .nanoTime 0, .nanoTime 0]
  (List.range 10).flatMap event ++ [.leave, .offer true]

theorem round_trip_drains_ten_events :
    ∃ s : RoundTrip Exact, exec (step fun _ => { pauseNanos := 0, numEvents := 10 }) .initial
        sentOnly = some s ∧
      backlog s = 33 ∧ ∃ acts t, exec (step fun _ => { pauseNanos := 0, numEvents := 10 }) s acts =
        some t ∧ (∀ act ∈ acts, act.Downstream) ∧ Settled t := by
  have ran : (exec (step fun _ => { pauseNanos := 0, numEvents := 10 }) RoundTrip.initial
      sentOnly).map backlog = some 33 := by decide +kernel
  obtain ⟨s, run, work⟩ := Option.map_eq_some_iff.mp ran
  exact ⟨s, run, work, (round_trip_drains (.of_exec sentOnly .start run)).2⟩

end StreamingPoc.Netfeed
