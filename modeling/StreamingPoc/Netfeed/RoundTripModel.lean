import StreamingPoc.Java.Double
import StreamingPoc.Lib.Transition
import StreamingPoc.Netfeed.Histogram

/-!
# EventPublisher and EventReceiver over the topics 'stream' and 'back'

`EventPublisher.run` (EventPublisher.java:92-115), the publisher's 'back'
subscriber (46-73), the receiver's `messageReceived` (EventReceiver.java:128-158)
and its Esper listener (91-108). The three run in threads of their own; an action
is one step of one of them. An action carries what its step reads from outside:
the answer of an `offer`, a `System.nanoTime()` reading, a random price.

A topic keeps the messages whose offer was accepted, in order, and how many of
them were handed to the subscriber: FastCast delivers each accepted message once
and in order. Esper calls the listener within `sendEvent`, with one event. The
`RateMeasure` statistics and the printing of a histogram that was handed over
are left out.
-/
namespace StreamingPoc.Netfeed

open StreamingPoc.Java

/-- `MarketEventStruct`, and the `MarketEvent` bean with the same fields. -/
structure MarketEvent (D : Type) where
  sendTimeStampNanos : Int64
  bidPrc : D
  askPrc : D
  bidQty : Int32
  askQty : Int32
  deriving DecidableEq, Repr

/-- A message by the class its struct pointer shows. -/
inductive Message (D : Type) where
  | marketEvent (event : MarketEvent D)
  | structString (text : String)
  deriving DecidableEq, Repr

structure Topic (D : Type) where
  accepted : List (Message D)
  delivered : Nat
  deriving DecidableEq, Repr

def Topic.offer {D : Type} (topic : Topic D) (message : Message D) (answer : Bool) : Topic D :=
  if answer then { topic with accepted := topic.accepted ++ [message] } else topic

/-- The next message FastCast hands to the subscriber. -/
def Topic.next {D : Type} (topic : Topic D) : Option (Message D) :=
  topic.accepted[topic.delivered]?

/-- The arguments of one call of `run`. -/
structure RunArgs where
  pauseNanos : Int32
  numEvents : Int32
  deriving DecidableEq, Repr

/-- The number of passes of `for (i = 0; i < numEvents; i++)`. -/
def RunArgs.count (args : RunArgs) : Nat := args.numEvents.toInt.toNat

/-- Where `run` is: before the loop test, in the spin of an `offer`, before
`time = System.nanoTime()`, in the pause spin, in the spin that offers END. -/
inductive SenderPc where
  | loop (i : Nat)
  | offer (i : Nat)
  | clock (i : Nat)
  | pause (i : Nat) (time : Int64)
  | offerEnd
  deriving DecidableEq, Repr

/-- The sending thread in its call number `round` of `run`. -/
structure Sender (D : Type) where
  round : Nat
  pc : SenderPc
  struct : MarketEvent D
  deriving DecidableEq, Repr

/-- The receiving thread; `offering` is the message its offer spin repeats. -/
structure Receiver (D : Type) where
  count : Nat
  backBuf : MarketEvent D
  offering : Option (Message D)
  deriving DecidableEq, Repr

/-- The state of the 'back' subscriber: the current histogram, the ones handed to
the dumper, and what escaped from `messageReceived` into FastCast. -/
structure BackHandler where
  hi : Histogram
  dumped : List Histogram
  escaped : List Thrown
  deriving DecidableEq, Repr

variable {D : Type} [JDouble D]

/-- A zeroed off-heap struct. -/
def MarketEvent.empty : MarketEvent D where
  sendTimeStampNanos := 0
  bidPrc := JDouble.zero D
  askPrc := JDouble.zero D
  bidQty := 0
  askQty := 0

def endMessage : Message D := .structString "END"

/-- The loop body up to the `offer`. -/
def Sender.fill (s : Sender D) (args : RunArgs) (bidPrc : D) (nanoTime : Int64) :
    Option (Sender D) :=
  match s.pc with
  | .loop i =>
    if (i : Int) < args.numEvents.toInt then
      some { s with
        pc := .offer i
        struct :=
          { s.struct with
            bidPrc := bidPrc
            askPrc := JDouble.add bidPrc (JDouble.ofInt 1)
            askQty := 10
            bidQty := 11
            sendTimeStampNanos := nanoTime } }
    else none
  | _ => none

/-- The exit of the for loop. -/
def Sender.leave (s : Sender D) (args : RunArgs) : Option (Sender D) :=
  match s.pc with
  | .loop i => if (i : Int) < args.numEvents.toInt then none else some { s with pc := .offerEnd }
  | _ => none

/-- The message in the offer spin and the sender after it was accepted. A `run`
that ends is followed by the next call, with a struct of its own. -/
def Sender.offer (s : Sender D) : Option (Message D × Sender D) :=
  match s.pc with
  | .offer i => some (.marketEvent s.struct, { s with pc := .clock i })
  | .offerEnd => some (endMessage, { round := s.round + 1, pc := .loop 0, struct := .empty })
  | _ => none

/-- A reading of the clock after an accepted offer: the first is `time`, the
others are compared with it. -/
def Sender.nanoTime (s : Sender D) (args : RunArgs) (now : Int64) : Option (Sender D) :=
  match s.pc with
  | .clock i => some { s with pc := .pause i now }
  | .pause i time =>
    if now - time < args.pauseNanos.toInt64 then some s else some { s with pc := .loop (i + 1) }
  | _ => none

/-- `UpdateListener.update` up to its offer spin. -/
def Receiver.update (r : Receiver D) (eventBeans : List (MarketEvent D)) : Receiver D :=
  match eventBeans with
  | [event] =>
    if r.count + 1 = 10 then
      let backBuf := { r.backBuf with sendTimeStampNanos := event.sendTimeStampNanos }
      { count := 0, backBuf := backBuf, offering := some (.marketEvent backBuf) }
    else { r with count := r.count + 1 }
  | _ => r

/-- The receiver's `messageReceived` up to its offer spin. -/
def Receiver.messageReceived (r : Receiver D) : Message D → Receiver D
  | .marketEvent event => r.update [event]
  | other => { r with offering := some other }

/-- The publisher's `messageReceived` on 'back'. -/
def BackHandler.messageReceived (h : BackHandler) (nanoTime : Int64) : Message D → BackHandler
  | .structString _ =>
    { h with dumped := h.dumped ++ [h.hi], hi := .create (secondsToNanos 2) }
  | .marketEvent mdata =>
    let value := nanoTime - mdata.sendTimeStampNanos
    if value < 1000000000 then
      match h.hi.recordValue value with
      | .ok hi => { h with hi := hi }
      | .error thrown => { h with escaped := h.escaped ++ [thrown] }
    else h

/-- The round trip. `handled` is the record of what the 'back' subscriber was
given: send timestamp and clock reading of an event, `none` for END. No step
reads it. -/
structure RoundTrip (D : Type) where
  sender : Sender D
  stream : Topic D
  receiver : Receiver D
  back : Topic D
  handler : BackHandler
  handled : List (Option (Int64 × Int64))

inductive Act (D : Type) where
  | fill (bidPrc : D) (nanoTime : Int64)
  | leave
  | offer (answer : Bool)
  | nanoTime (now : Int64)
  | receive
  | offerBack (answer : Bool)
  | handleBack (nanoTime : Int64)
  deriving DecidableEq, Repr

/-- The send timestamp of an event; END has none. -/
def Message.stamp : Message D → Option Int64
  | .marketEvent event => some event.sendTimeStampNanos
  | .structString _ => none

def step (args : Nat → RunArgs) (s : RoundTrip D) : Act D → Option (RoundTrip D)
  | .fill bidPrc nanoTime =>
    (s.sender.fill (args s.sender.round) bidPrc nanoTime).map fun sender => { s with sender }
  | .leave => (s.sender.leave (args s.sender.round)).map fun sender => { s with sender }
  | .offer answer =>
    match s.sender.offer with
    | some (message, next) =>
      some { s with
        stream := s.stream.offer message answer
        sender := if answer then next else s.sender }
    | none => none
  | .nanoTime now =>
    (s.sender.nanoTime (args s.sender.round) now).map fun sender => { s with sender }
  | .receive =>
    -- the receiving thread takes no message while it spins on an offer
    match s.receiver.offering, s.stream.next with
    | none, some message =>
      some { s with
        stream := { s.stream with delivered := s.stream.delivered + 1 }
        receiver := s.receiver.messageReceived message }
    | _, _ => none
  | .offerBack answer =>
    match s.receiver.offering with
    | some message =>
      some { s with
        back := s.back.offer message answer
        receiver := if answer then { s.receiver with offering := none } else s.receiver }
    | none => none
  | .handleBack nanoTime =>
    match s.back.next with
    | some message =>
      some { s with
        back := { s.back with delivered := s.back.delivered + 1 }
        handler := s.handler.messageReceived nanoTime message
        handled := s.handled ++ [message.stamp.map fun sent => (sent, nanoTime)] }
    | none => none

/-- After `initFastCast` and `initEsper` on both sides. -/
def RoundTrip.initial : RoundTrip D where
  sender := { round := 0, pc := .loop 0, struct := .empty }
  stream := { accepted := [], delivered := 0 }
  receiver := { count := 0, backBuf := .empty, offering := none }
  back := { accepted := [], delivered := 0 }
  handler := { hi := .create (secondsToNanos 10), dumped := [], escaped := [] }
  handled := []

end StreamingPoc.Netfeed
