import StreamingPoc.Lib.Handover
import StreamingPoc.Netfeed.RoundTrip

/-!
# Printing out of the receiving thread

On END the 'back' subscriber gives the histogram object it recorded into to a task
of `dumper`, an executor whose threads run while the subscriber goes on
(EventPublisher.java:51-66). The object is not copied. Here histograms are objects
on the heap, and a task may read the one it was given at any time after.
-/
namespace StreamingPoc.Netfeed

open StreamingPoc.Java StreamingPoc.Lib

variable {D : Type}

/-- `BackHandler` with references: `hi` is the cell in use of `histograms`, the
references given away are those the tasks captured as `oldHi`. -/
structure HeapHandler where
  histograms : Handover Histogram
  escaped : List Thrown

def HeapHandler.messageReceived (h : HeapHandler) (nanoTime : Int64) : Message D → HeapHandler
  | .structString _ => { h with histograms := h.histograms.handOver (.create (secondsToNanos 2)) }
  | .marketEvent mdata =>
    let value := nanoTime - mdata.sendTimeStampNanos
    if value < 1000000000 then
      match h.histograms.value.recordValue value with
      | .ok hi => { h with histograms := h.histograms.modify hi }
      | .error thrown => { h with escaped := h.escaped ++ [thrown] }
    else h

def HeapHandler.initial : HeapHandler :=
  { histograms := .start (.create (secondsToNanos 10)), escaped := [] }

/-- The round trip with its histograms on the heap; `trip.handler` is what the
subscriber would hold if each task got a copy. `printed` records the task and what
it read. -/
structure Dumping (D : Type) where
  trip : RoundTrip D
  heap : HeapHandler
  printed : List (Nat × Histogram)

inductive DumpAct (D : Type) where
  | act (act : Act D)
  /-- the task submitted at the end of a round reads its histogram -/
  | print (task : Nat)

def HeapHandler.after (h : HeapHandler) (s : RoundTrip D) : Act D → HeapHandler
  | .handleBack nanoTime =>
    match s.back.next with
    | some message => h.messageReceived nanoTime message
    | none => h
  | _ => h

def dumpStep [JDouble D] (args : Nat → RunArgs) (s : Dumping D) : DumpAct D → Option (Dumping D)
  | .act act => (step args s.trip act).map fun trip => { s with trip, heap := s.heap.after s.trip act }
  | .print task =>
    (s.heap.histograms.read task).map fun histogram =>
      { s with printed := s.printed ++ [(task, histogram)] }

def Dumping.initial [JDouble D] : Dumping D := { trip := .initial, heap := .initial, printed := [] }

/-- The heap holds what the subscriber would hold with copies. -/
structure HeapHandler.Refines (h : HeapHandler) (handler : BackHandler) : Prop where
  hi : h.histograms.value = handler.hi
  dumped : h.histograms.Reads handler.dumped
  escaped : h.escaped = handler.escaped

theorem HeapHandler.Refines.messageReceived {h : HeapHandler} {handler : BackHandler}
    (refines : h.Refines handler) (now : Int64) (m : Message D) :
    (h.messageReceived now m).Refines (handler.messageReceived now m) := by
  obtain ⟨hi, dumped, escaped⟩ := refines
  cases m with
  | structString text =>
    refine ⟨?_, ?_, escaped⟩
    · exact Handover.value_handOver _ _
    · rw [BackHandler.messageReceived, ← hi]
      exact dumped.handOver _
  | marketEvent mdata =>
    simp only [HeapHandler.messageReceived, BackHandler.messageReceived, hi]
    split
    · cases handler.hi.recordValue (now - mdata.sendTimeStampNanos) with
      | ok next => exact ⟨Handover.value_modify _ _, dumped.modify _, escaped⟩
      | error thrown => exact ⟨hi, dumped, by rw [escaped]⟩
    · exact ⟨hi, dumped, escaped⟩

/-- The subscriber's histograms after a step are those it gave away before, and more. -/
theorem dumped_stable [JDouble D] {args : Nat → RunArgs} {s t : RoundTrip D} {act : Act D}
    (move : step args s act = some t) : s.handler.dumped <+: t.handler.dumped := by
  have moves := step_cases move
  cases moves with
  | handleBack m now found =>
    cases m with
    | structString text => exact List.prefix_append _ _
    | marketEvent mdata =>
      simp only [BackHandler.messageReceived]
      split
      · split <;> exact List.prefix_rfl
      · exact List.prefix_rfl
  | _ => exact List.prefix_rfl

structure DumpInv [JDouble D] (args : Nat → RunArgs) (s : Dumping D) : Prop where
  trip : Reachable (step args) RoundTrip.initial s.trip
  heap : s.heap.Refines s.trip.handler
  printed : ∀ task histogram, (task, histogram) ∈ s.printed →
    s.trip.handler.dumped[task]? = some histogram

theorem HeapHandler.Refines.after [JDouble D] {args : Nat → RunArgs} {h : HeapHandler}
    {s t : RoundTrip D} {act : Act D} (refines : h.Refines s.handler)
    (move : step args s act = some t) : (h.after s act).Refines t.handler := by
  cases act with
  | handleBack now =>
    simp only [step] at move
    split at move
    · rename_i m found
      cases move
      rw [HeapHandler.after, found]
      exact refines.messageReceived now m
    · cases move
  | receive =>
    simp only [step] at move
    split at move
    · cases move
      exact refines
    · cases move
  | offer answer =>
    simp only [step] at move
    split at move
    · cases move
      exact refines
    · cases move
  | offerBack answer =>
    simp only [step] at move
    split at move
    · cases move
      exact refines
    · cases move
  | _ =>
    obtain ⟨sender, -, rfl⟩ := Option.map_eq_some_iff.mp move
    exact refines

theorem dumpInv_step [JDouble D] {args : Nat → RunArgs} {s t : Dumping D} {act : DumpAct D}
    (inv : DumpInv args s) (move : dumpStep args s act = some t) : DumpInv args t := by
  cases act with
  | act act =>
    obtain ⟨trip, moved, rfl⟩ := Option.map_eq_some_iff.mp move
    refine ⟨inv.trip.next act moved, inv.heap.after moved, ?_⟩
    intro task histogram member
    have before := inv.printed task histogram member
    obtain ⟨more, whole⟩ := dumped_stable moved
    obtain ⟨below, -⟩ := List.getElem?_eq_some_iff.mp before
    rw [← whole, List.getElem?_append_left below, before]
  | print task =>
    obtain ⟨histogram, found, rfl⟩ := Option.map_eq_some_iff.mp move
    refine ⟨inv.trip, inv.heap, ?_⟩
    intro printing read member
    rcases List.mem_append.mp member with before | last
    · exact inv.printed printing read before
    · cases List.mem_singleton.mp last
      rw [← inv.heap.dumped.2]
      exact found

/-- Whatever the order of the steps of the sender, the receiver, the 'back'
subscriber and the printing threads, sharing the histogram objects is as good as
copying them: the subscriber records, hands over and fails as it would with
copies, and whenever a task reads the object it was given, it finds exactly the
recordable latencies of its round. -/
theorem dumps_exact_rounds [JDouble D] {args : Nat → RunArgs} {s : Dumping D}
    (reach : Reachable (dumpStep args) .initial s) :
    s.heap.Refines s.trip.handler ∧
      ∀ task histogram, (task, histogram) ∈ s.printed →
        ∃ log, (splitRounds s.trip.handled).1[task]? = some log ∧ histogram.values = recordable log := by
  have start : DumpInv args (Dumping.initial : Dumping D) :=
    ⟨.start, ⟨rfl, Handover.reads_start _, rfl⟩, fun _ _ member => by cases member⟩
  have inv : DumpInv args s := reach.invariant (DumpInv args) start
    fun _ _ _ inv move => dumpInv_step inv move
  refine ⟨inv.heap, fun task histogram member => ?_⟩
  obtain ⟨-, -, handler⟩ := reachable_inv inv.trip
  have values := congrArg (fun rounds => rounds[task]?) handler.dumped
  simp only [List.getElem?_map, inv.printed task histogram member, Option.map_some] at values
  obtain ⟨log, ended, same⟩ := Option.map_eq_some_iff.mp values.symm
  exact ⟨log, ended, same.symm⟩

/-- The first round's task reads its histogram after the subscriber has recorded an
event of the second round. -/
def latePrint : List (DumpAct Exact) :=
  let event (k : Nat) : List (Act Exact) :=
    [.fill (.finite k) (100 * Int64.ofNat (k + 1)), .offer true, .nanoTime 0, .nanoTime 0, .receive]
  let tenEvents := (List.range 10).flatMap event ++ [.offerBack true]
  let ending : List (Act Exact) :=
    [.leave, .offer true, .receive, .handleBack 1050, .offerBack true, .handleBack 1060]
  let acts := tenEvents ++ ending ++ tenEvents ++ [Act.handleBack 1070]
  acts.map .act ++ [.print 0]

theorem dumps_exact_rounds_late :
    ∃ s : Dumping Exact, exec (dumpStep fun _ => { pauseNanos := 0, numEvents := 10 }) .initial
        latePrint = some s ∧
      s.printed = [(0, { highest := 10000000000, values := [50] })] ∧ s.trip.handler.hi.values = [70] ∧
      s.heap.Refines s.trip.handler := by
  have ran : (exec (dumpStep fun _ => { pauseNanos := 0, numEvents := 10 }) Dumping.initial
      latePrint).map (fun s : Dumping Exact => (s.printed, s.trip.handler.hi.values)) =
        some ([(0, { highest := 10000000000, values := [50] })], [70]) := by
    decide +kernel
  obtain ⟨s, run, same⟩ := Option.map_eq_some_iff.mp ran
  obtain ⟨printed, recording⟩ := Prod.mk.inj same
  exact ⟨s, run, printed, recording, (dumps_exact_rounds (.of_exec latePrint .start run)).1⟩

end StreamingPoc.Netfeed
