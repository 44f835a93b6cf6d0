import StreamingPoc.Esper.MDEsper
import StreamingPoc.Lib.Groups
import StreamingPoc.Sap.RTTSubscribe

/-!
# Latency reports

`doSubcribe` prints a histogram after every 200000 rows and begins a new one; the
listener of MDEsper prints after 100000001 events and resets the one it has. Both
cut the stream of latencies into groups (`Lib/Groups.lean`), whatever messages
or arrays the stream comes in.
-/
namespace StreamingPoc.Latency

open StreamingPoc.Lib
open StreamingPoc.Netfeed (Histogram Sample Thrown secondsToNanos)

/-- The range of both histograms, 10 seconds. -/
def range : Int := secondsToNanos 10

def WithinRange (sample : Sample) : Prop := (Histogram.create range).InRange sample.latency

/-- `latencies` were recorded, `size` to a report; `current` holds the latest
`counter` of them. -/
structure Reports (size : Nat) (latencies : List Int64) (reports : List Histogram)
    (current : Histogram) (counter : Nat) : Prop where
  cut : Cut size latencies (reports.map Histogram.values) current.values
  counter : counter = current.values.length
  ranges : ∀ h ∈ reports, h.highest = range
  highest : current.highest = range

namespace Reports

variable {size counter : Nat} {latencies : List Int64} {reports : List Histogram}
  {current : Histogram}

theorem start (positive : 0 < size) : Reports size [] [] (.create range) 0 :=
  ⟨Cut.start positive, rfl, by simp, rfl⟩

theorem records (inv : Reports size latencies reports current counter) {sample : Sample}
    (within : WithinRange sample) :
    current.recordValue sample.latency =
      .ok { current with values := current.values ++ [sample.latency] } := by
  apply Histogram.recordValue_inRange
  unfold Histogram.InRange
  rw [inv.highest]
  exact within

/-- A latency that does not fill the histogram. -/
theorem keep (inv : Reports size latencies reports current counter) (value : Int64)
    (more : counter + 1 ≠ size) :
    Reports size (latencies ++ [value]) reports
      { current with values := current.values ++ [value] } (counter + 1) := by
  have short := inv.cut.short
  have counts := inv.counter
  refine ⟨inv.cut.keep value (by omega), ?_, inv.ranges, inv.highest⟩
  rw [counts, List.length_append, List.length_singleton]

/-- The latency that fills it: the histogram is printed, and the next one is empty. -/
theorem close (inv : Reports size latencies reports current counter) (value : Int64)
    (last : counter + 1 = size) :
    Reports size (latencies ++ [value])
      (reports ++ [{ current with values := current.values ++ [value] }]) (.create range) 0 := by
  have counts := inv.counter
  refine ⟨?_, rfl, ?_, rfl⟩
  · rw [List.map_append]
    exact inv.cut.close value (by omega)
  · intro h member
    rcases List.mem_append.mp member with old | new
    · exact inv.ranges h old
    · rw [List.mem_singleton.mp new]
      exact inv.highest

/-- The reports are the groups of the latencies. -/
theorem eq_groups (inv : Reports size latencies reports current counter) :
    reports = (groups size latencies).map (Histogram.mk range) ∧
      current.values = rest size latencies := by
  obtain ⟨closed, current_eq⟩ := inv.cut.eq_groups
  refine ⟨?_, current_eq⟩
  rw [← closed, List.map_map, List.map_congr_left (g := id), List.map_id]
  intro h member
  have highest := inv.ranges h member
  cases h
  exact congrArg (Histogram.mk · _) highest.symm

end Reports

/-! ## RTTClient.doSubcribe -/

section

open Sap.RTTClient.DoSubcribe

/-- The reports of a run of `doSubcribe` that read these rows. -/
def SubscriberInv (acts : List Act) (s : Subscriber) : Prop :=
  (∀ row ∈ rows acts, WithinRange row) →
    Reports 200000 ((rows acts).map Sample.latency) s.reports s.hi s.histoCounter ∧
      ∀ thrown, s.pc ≠ .threw thrown

theorem rows_append (acts : List Act) (act : Act) : rows (acts ++ [act]) = rows acts ++ rows [act] :=
  List.filterMap_append

theorem subscriberInv_row {acts : List Act} {s : Subscriber} (inv : SubscriberInv acts s)
    (reading : s.pc = .hasNextRow) (row : Sample) :
    SubscriberInv (acts ++ [.row row]) (s.nextRow row) := by
  intro within
  rw [rows_append] at within ⊢
  obtain ⟨reports, -⟩ := inv fun r member => within r (List.mem_append_left _ member)
  have recorded := reports.records (within row (List.mem_append_right _ List.mem_cons_self))
  have latencies : (rows acts ++ rows [.row row]).map Sample.latency =
      (rows acts).map Sample.latency ++ [row.latency] := List.map_append
  rw [latencies]
  simp only [Subscriber.nextRow, recorded]
  by_cases last : s.histoCounter + 1 = 200000
  · rw [if_pos last]
    refine ⟨?_, by simp [reading]⟩
    simpa [Subscriber.reports, Printed.hi, range] using reports.close row.latency last
  · rw [if_neg last]
    refine ⟨?_, by simp [reading]⟩
    simpa [Subscriber.reports] using reports.keep row.latency last

theorem subscriberInv_of_exec {acts : List Act} {s : Subscriber}
    (ran : exec step .initial acts = some s) : SubscriberInv acts s := by
  refine exec_invariant SubscriberInv ?_ ?_ ran
  · exact fun _ => ⟨Reports.start (by decide), by simp [Subscriber.initial]⟩
  · intro acts s act t inv move
    cases step_cases move with
    | row row reading is_row done =>
      subst is_row done
      exact subscriberInv_row inv reading row
    | quiet notRow hi counter reports alive =>
      intro within
      rw [rows_append, notRow, List.append_nil] at within ⊢
      obtain ⟨before, -⟩ := inv within
      rw [hi, counter, reports]
      exact ⟨before, alive⟩

/-- The event that ends the loop is the last thing that happens. -/
theorem nothing_after_end {pre post : List Act} {type : EventType} {s : Subscriber}
    (ends : type = .closed ∨ type = .disconnected)
    (ran : exec step .initial (pre ++ .event type :: post) = some s) : post = [] := by
  rw [exec_append, Option.bind_eq_some_iff] at ran
  obtain ⟨u, -, later⟩ := ran
  cases post with
  | nil => rfl
  | cons act post =>
    simp only [exec, Option.bind_eq_some_iff] at later
    obtain ⟨v, closing, w, next, -⟩ := later
    have returned : v.pc = .returned := by
      simp only [step] at closing
      split at closing
      · rcases ends with rfl | rfl <;> cases closing <;> rfl
      · cases closing
    rw [no_step_after_end (by simp [returned])] at next
    cases next

end

/-! ## The listener of MDEsper -/

section

open Esper.MDEsper

/-- The reports of a run of the listener that was given these events. -/
def ListenerInv (acts : List Act) (s : Listener) : Prop :=
  (∀ event ∈ events acts, WithinRange event) →
    Reports 100000001 ((events acts).map Sample.latency) s.printed s.histo s.count ∧
      s.escaped = []

theorem events_append (acts : List Act) (act : Act) :
    events (acts ++ [act]) = events acts ++ events [act] :=
  List.filterMap_append

theorem listenerInv_event {acts : List Act} {s : Listener} (inv : ListenerInv acts s)
    (i length : Nat) (event : Sample) :
    ListenerInv (acts ++ [.newEvent event]) (s.newEvent i length event) := by
  intro within
  rw [events_append] at within ⊢
  obtain ⟨reports, quiet⟩ := inv fun e member => within e (List.mem_append_left _ member)
  have recorded := reports.records (within event (List.mem_append_right _ List.mem_cons_self))
  have latencies : (events acts ++ events [.newEvent event]).map Sample.latency =
      (events acts).map Sample.latency ++ [event.latency] := List.map_append
  have short := reports.cut.short
  have counts := reports.counter
  rw [latencies]
  simp only [Listener.newEvent, recorded]
  by_cases last : 100000000 < s.count + 1
  · rw [if_pos last]
    refine ⟨?_, quiet⟩
    have reset : (Histogram.reset { s.histo with values := s.histo.values ++ [event.latency] }) =
        .create range := congrArg (Histogram.mk · []) reports.highest
    simp only [reset]
    exact reports.close event.latency (by omega)
  · rw [if_neg last]
    exact ⟨reports.keep event.latency (by omega), quiet⟩

theorem listenerInv_of_exec {acts : List Act} {s : Listener}
    (ran : exec step .initial acts = some s) : ListenerInv acts s := by
  refine exec_invariant ListenerInv ?_ ?_ ran
  · exact fun _ => ⟨Reports.start (by decide), rfl⟩
  · intro acts s act t inv move
    cases step_cases move with
    | event i length event is_event done =>
      subst is_event done
      exact listenerInv_event inv i length event
    | quiet notEvent histo count printed escaped =>
      intro within
      rw [events_append, notEvent, List.append_nil] at within ⊢
      rw [histo, count, printed, escaped]
      exact inv within

end

/-! ## Both loops -/

/-- The counter is the number of samples in the current histogram, below `size`;
report `k` holds group `k` of the latencies, the current histogram the rest, and
together they are all latencies, once and in order. -/
structure ReportedInGroups (size : Nat) (samples : List Sample) (reports : List Histogram)
    (current : Histogram) (counter : Nat) : Prop where
  counts : counter = current.values.length ∧ counter < size
  grouped : reports = (groups size (samples.map Sample.latency)).map (Histogram.mk range)
  remaining : current.values = rest size (samples.map Sample.latency)
  whole : (reports.map Histogram.values).flatten ++ current.values = samples.map Sample.latency

theorem Reports.reportedInGroups {size counter : Nat} {samples : List Sample}
    {reports : List Histogram} {current : Histogram}
    (inv : Reports size (samples.map Sample.latency) reports current counter) :
    ReportedInGroups size samples reports current counter := by
  obtain ⟨closed, open_⟩ := inv.eq_groups
  refine ⟨⟨inv.counter, ?_⟩, closed, open_, inv.cut.whole⟩
  rw [inv.counter]
  exact inv.cut.short

/-- Latency reports do not depend on how rows are batched. In every state of
`doSubcribe` and of the listener, with all latencies in range, the reports are the
groups of 200000 and of 100000001 of the rows read so far, of which there are none
after CLOSED or DISCONNECTED; so runs that read the same rows print the same. -/
theorem reports_batching_invariant :
    (∀ acts s, exec Sap.RTTClient.DoSubcribe.step .initial acts = some s →
      (∀ row ∈ Sap.RTTClient.DoSubcribe.rows acts, WithinRange row) →
      ReportedInGroups 200000 (Sap.RTTClient.DoSubcribe.rows acts) s.reports s.hi s.histoCounter ∧
        (∀ pre type post, acts = pre ++ .event type :: post →
          type = .closed ∨ type = .disconnected → post = []) ∧
        ∀ acts' s', exec Sap.RTTClient.DoSubcribe.step .initial acts' = some s' →
          Sap.RTTClient.DoSubcribe.rows acts' = Sap.RTTClient.DoSubcribe.rows acts →
          s'.reports = s.reports) ∧
    ∀ acts s, exec Esper.MDEsper.step .initial acts = some s →
      (∀ event ∈ Esper.MDEsper.events acts, WithinRange event) →
      ReportedInGroups 100000001 (Esper.MDEsper.events acts) s.printed s.histo s.count ∧
        ∀ acts' s', exec Esper.MDEsper.step .initial acts' = some s' →
          Esper.MDEsper.events acts' = Esper.MDEsper.events acts → s'.printed = s.printed := by
  constructor
  · intro acts s ran within
    have reported := (subscriberInv_of_exec ran within).1.reportedInGroups
    refine ⟨reported, ?_, ?_⟩
    · rintro pre type post rfl ends
      exact nothing_after_end ends ran
    · intro acts' s' ran' same
      have within' := same ▸ within
      have reported' := (subscriberInv_of_exec ran' within').1.reportedInGroups
      rw [reported.grouped, reported'.grouped, same]
  · intro acts s ran within
    have reported := (listenerInv_of_exec ran within).1.reportedInGroups
    refine ⟨reported, ?_⟩
    intro acts' s' ran' same
    have within' := same ▸ within
    have reported' := (listenerInv_of_exec ran' within').1.reportedInGroups
    rw [reported.grouped, reported'.grouped, same]

/-- Three rows in two messages, and two events in two calls with one of null in between. -/
def threeRows : List Sap.RTTClient.DoSubcribe.Act :=
  [.event .syncStart, .event .data, .row ⟨100, 350⟩, .row ⟨200, 360⟩, .noMoreRows, .event .dataLost,
    .event .data, .row ⟨300, 370⟩, .noMoreRows, .event .closed]

def twoEvents : List Esper.MDEsper.Act :=
  [.update (some 1), .newEvent ⟨100, 350⟩, .endOfArray, .update none, .update (some 1),
    .newEvent ⟨200, 360⟩, .endOfArray]

theorem reports_batching_invariant_three_rows :
    (∃ s, exec Sap.RTTClient.DoSubcribe.step .initial threeRows = some s ∧
      s.histoCounter = 3 ∧ s.hi.values = rest 200000 [250, 160, 70]) ∧
    ∃ s, exec Esper.MDEsper.step .initial twoEvents = some s ∧
      s.count = 2 ∧ s.histo.values = rest 100000001 [250, 160] := by
  constructor
  · have within : ∀ row ∈ Sap.RTTClient.DoSubcribe.rows threeRows, WithinRange row := by
      unfold WithinRange Histogram.InRange
      decide +kernel
    have reported := (reports_batching_invariant.1 threeRows _ rfl within).1
    exact ⟨_, rfl, rfl, reported.remaining⟩
  · have within : ∀ event ∈ Esper.MDEsper.events twoEvents, WithinRange event := by
      unfold WithinRange Histogram.InRange
      decide +kernel
    have reported := (reports_batching_invariant.2 twoEvents _ rfl within).1
    exact ⟨_, rfl, rfl, reported.remaining⟩

end StreamingPoc.Latency
