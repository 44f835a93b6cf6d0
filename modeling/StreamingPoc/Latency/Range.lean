import StreamingPoc.Java.Int64
import StreamingPoc.Latency.Reports
import StreamingPoc.Netfeed.RoundTripModel

/-!
# Recorded latencies and the range of the histogram

`recordValue` throws outside the range of the histogram it is called on. The
'back' subscriber of EventPublisher guards the call with `value < 1000000000`,
which leaves out the negative values of a timestamp ahead of the clock; the other
two sites have no guard. Timestamps and clock readings are any longs.
-/
namespace StreamingPoc.Latency

open StreamingPoc.Lib
open StreamingPoc.Netfeed (BackHandler Histogram MarketEvent Message Sample Thrown secondsToNanos)

variable {σ α : Type}

/-- A place that calls `recordValue`: the histogram it calls, where a step leaves the
histogram that a call returns, and what the calls have thrown so far. -/
structure Site (σ : Type) where
  histogram : σ → Histogram
  keeps : σ → σ → Histogram → Prop
  thrown : σ → List Thrown

/-- The step from `s` to `t` calls `recordValue` with this value: `t` keeps what the
call returns, or has one more exception, the one that it throws. -/
def Site.Records (site : Site σ) (s t : σ) (value : Int64) : Prop :=
  match (site.histogram s).recordValue value with
  | .ok hi => site.keeps s t hi
  | .error thrown => site.thrown t = site.thrown s ++ [thrown]

/-- Every value that a run hands to `recordValue` lies in the range of the
histogram it is handed to. -/
def ValuesInRange (site : Site σ) (step : σ → α → Option σ) (init : σ) (acts : List α) : Prop :=
  ∀ pre act post s t, acts = pre ++ act :: post → exec step init pre = some s → step s act = some t →
    ∀ value, site.Records s t value → (site.histogram s).InRange value

/-- No call of a run throws. -/
def NoneThrown (site : Site σ) (step : σ → α → Option σ) (init : σ) (acts : List α) : Prop :=
  ∀ s, exec step init acts = some s → site.thrown s = []

/-! ## One step -/

section

variable {site : Site σ} {step : σ → α → Option σ} {init s t : σ} {acts : List α}
  {passed : Option Int64}

/-- What a step does that hands over `passed`, or nothing. -/
inductive Site.Calls (site : Site σ) (s t : σ) : Option Int64 → Prop where
  | quiet (thrown : site.thrown t = site.thrown s)
      (keeps : ∀ v, ¬ site.keeps s t ((site.histogram s).add v)) : Calls site s t none
  | recorded (value : Int64) (inRange : (site.histogram s).InRange value)
      (thrown : site.thrown t = site.thrown s)
      (keeps : ∀ v, site.keeps s t ((site.histogram s).add v) ↔ value = v) : Calls site s t (some value)
  | threw (value : Int64) (outside : ¬ (site.histogram s).InRange value)
      (thrown : site.thrown t = site.thrown s ++ [.arrayIndexOutOfBounds value])
      (keeps : ∀ v, ¬ site.keeps s t ((site.histogram s).add v)) : Calls site s t (some value)

theorem Site.records_outside {value : Int64} (outside : ¬ (site.histogram s).InRange value) :
    site.Records s t value ↔ site.thrown t = site.thrown s ++ [.arrayIndexOutOfBounds value] := by
  rw [Site.Records, Histogram.recordValue_outside outside]

theorem Site.records_inRange {value : Int64} (inRange : (site.histogram s).InRange value) :
    site.Records s t value ↔ site.keeps s t ((site.histogram s).add value) := by
  rw [Site.Records, Histogram.recordValue_inRange inRange]

namespace Site.Calls

theorem records_iff (calls : site.Calls s t passed) (value : Int64) :
    site.Records s t value ↔ passed = some value := by
  by_cases inRange : (site.histogram s).InRange value
  · rw [Site.records_inRange inRange]
    cases calls with
    | quiet thrown keeps => simp [keeps]
    | recorded v inRange' thrown keeps => simp [keeps]
    | threw v outside thrown keeps =>
      have different : v ≠ value := fun same => outside (same ▸ inRange)
      simp [keeps, different]
  · rw [Site.records_outside inRange]
    cases calls with
    | quiet thrown keeps => simp [thrown]
    | recorded v inRange' thrown keeps =>
      have different : v ≠ value := fun same => inRange (same ▸ inRange')
      simp [thrown, different]
    | threw v outside thrown keeps => simp [thrown]

/-- A step throws exactly when what it hands over is out of range. -/
theorem thrown_iff (calls : site.Calls s t passed) :
    site.thrown t = site.thrown s ↔ ∀ value, passed = some value → (site.histogram s).InRange value := by
  cases calls with
  | quiet thrown keeps => simp [thrown]
  | recorded v inRange thrown keeps => simp [thrown, inRange]
  | threw v outside thrown keeps => simp [thrown, outside]

/-- What has been thrown stays thrown. -/
theorem prefix_thrown (calls : site.Calls s t passed) : site.thrown s <+: site.thrown t := by
  cases calls with
  | quiet thrown keeps => exact thrown ▸ List.prefix_rfl
  | recorded v inRange thrown keeps => exact thrown ▸ List.prefix_rfl
  | threw v outside thrown keeps => exact thrown ▸ List.prefix_append _ _

end Site.Calls

/-! ## A run -/

section

variable {passed : α → Option Int64} {good : α → Prop}
  (calls : ∀ u v act, step u act = some v → site.Calls u v (passed act))
  (good_iff : ∀ pre u, exec step init pre = some u → ∀ act,
    (∀ value, passed act = some value → (site.histogram u).InRange value) ↔ good act)

include calls good_iff

theorem valuesInRange_iff (ran : exec step init acts = some s) :
    ValuesInRange site step init acts ↔ ∀ act ∈ acts, good act := by
  constructor
  · intro inRange act member
    obtain ⟨pre, post, split⟩ := List.append_of_mem member
    rw [split, exec_append, Option.bind_eq_some_iff] at ran
    obtain ⟨u, before, later⟩ := ran
    obtain ⟨v, move, -⟩ := Option.bind_eq_some_iff.mp later
    apply (good_iff pre u before act).mp
    intro value handed
    exact inRange pre act post u v split before move value
      (((calls u v act move).records_iff value).mpr handed)
  · intro all pre act post u v split before move value records
    apply (good_iff pre u before act).mpr (all act (by simp [split]))
    exact ((calls u v act move).records_iff value).mp records

theorem noneThrown_iff (start : site.thrown init = []) (ran : exec step init acts = some s) :
    NoneThrown site step init acts ↔ ∀ act ∈ acts, good act := by
  have thrown : site.thrown s = [] ↔ ∀ act ∈ acts, good act := by
    refine exec_invariant_of_run (fun acts s => site.thrown s = [] ↔ ∀ act ∈ acts, good act) ?_ ?_ ran
    · simp [start]
    · intro acts u act v before ih move
      have quiet := (calls u v act move).thrown_iff.trans (good_iff acts u before act)
      rw [List.forall_mem_append, List.forall_mem_singleton, ← ih, ← quiet]
      constructor
      · intro none
        have before_none : site.thrown u = [] :=
          List.prefix_nil.mp (none ▸ (calls u v act move).prefix_thrown)
        exact ⟨before_none, none.trans before_none.symm⟩
      · rintro ⟨none, same⟩
        exact same.trans none
  rw [← thrown, NoneThrown, ran]
  simp

/-- Values are in range and nothing is thrown exactly when every action is good. -/
theorem safe_iff (start : site.thrown init = []) (ran : exec step init acts = some s) :
    (ValuesInRange site step init acts ↔ ∀ act ∈ acts, good act) ∧
      (NoneThrown site step init acts ↔ ∀ act ∈ acts, good act) :=
  ⟨valuesInRange_iff calls good_iff ran, noneThrown_iff calls good_iff start ran⟩

end

end

/-- The difference of the numbers, reduced to 64 bits. -/
def wrapped (sample : Sample) : Int := (sample.nanoTime.toInt - sample.time.toInt) % 2 ^ 64

theorem withinRange_iff (sample : Sample) :
    WithinRange sample ↔ wrapped sample ≤ 10000000000 :=
  Java.Int64.sub_within_iff sample.nanoTime sample.time (by decide)

/-! ## The 'back' subscriber -/

section

variable {D : Type}

/-- A call of `messageReceived`, with its clock reading. -/
abbrev Delivery (D : Type) := Int64 × Message D

def backStep (h : BackHandler) (delivery : Delivery D) : Option BackHandler :=
  some (h.messageReceived delivery.1 delivery.2)

def BackHandler.initial : BackHandler :=
  { hi := .create (secondsToNanos 10), dumped := [], escaped := [] }

def back : Site BackHandler where
  histogram := BackHandler.hi
  keeps _ t hi := t.hi = hi
  thrown := BackHandler.escaped

/-- The guard of the handler leaves out the values from a second on. -/
def backPassed : Delivery D → Option Int64
  | (_, .structString _) => none
  | (nanoTime, .marketEvent mdata) =>
    let value := nanoTime - mdata.sendTimeStampNanos
    if value < 1000000000 then some value else none

theorem back_calls (h t : BackHandler) (delivery : Delivery D) (move : backStep h delivery = some t) :
    back.Calls h t (backPassed delivery) := by
  cases move
  obtain ⟨nanoTime, message⟩ := delivery
  cases message with
  | structString text =>
    exact .quiet rfl (by simp [back, BackHandler.messageReceived, Histogram.create])
  | marketEvent mdata =>
    simp only [BackHandler.messageReceived, backPassed]
    generalize nanoTime - mdata.sendTimeStampNanos = value
    by_cases guard : value < 1000000000
    · simp only [if_pos guard]
      by_cases inRange : h.hi.InRange value
      · rw [Histogram.recordValue_inRange inRange]
        exact .recorded value inRange rfl (by simp [back])
      · rw [Histogram.recordValue_outside inRange]
        exact .threw value inRange rfl h.hi.ne_add
    · simp only [if_neg guard]
      exact .quiet rfl h.hi.ne_add

/-- Both histograms of the handler take everything from 0 to a second. -/
theorem back_highest (deliveries : List (Delivery D)) (h : BackHandler)
    (ran : exec backStep BackHandler.initial deliveries = some h) : 1000000000 ≤ h.hi.highest := by
  refine exec_invariant (fun _ h => 1000000000 ≤ h.hi.highest) ?_ ?_ ran
  · exact Int.le_of_lt (show (1000000000 : Int) < secondsToNanos 10 by decide)
  · intro _ h delivery t high move
    cases move
    obtain ⟨nanoTime, message⟩ := delivery
    cases message with
    | structString text => exact Int.le_of_lt (show (1000000000 : Int) < secondsToNanos 2 by decide)
    | marketEvent mdata =>
      simp only [BackHandler.messageReceived]
      split
      · split
        · rename_i hi recorded
          rw [Histogram.highest_of_recordValue recorded]
          exact high
        · exact high
      · exact high

theorem exec_back (deliveries : List (Delivery D)) (h : BackHandler) :
    ∃ h', exec backStep h deliveries = some h' := by
  induction deliveries generalizing h with
  | nil => exact ⟨h, rfl⟩
  | cons delivery rest ih => exact ih (h.messageReceived delivery.1 delivery.2)

/-- The timestamp of an event is not ahead of the clock reading, as the signed
64-bit difference sees it. -/
def NotAhead : Delivery D → Prop
  | (_, .structString _) => True
  | (nanoTime, .marketEvent mdata) =>
    (nanoTime.toInt - mdata.sendTimeStampNanos.toInt) % 2 ^ 64 < 2 ^ 63

instance : DecidablePred (NotAhead (D := D))
  | (_, .structString _) => .isTrue trivial
  | (nanoTime, .marketEvent mdata) =>
    inferInstanceAs (Decidable ((nanoTime.toInt - mdata.sendTimeStampNanos.toInt) % 2 ^ 64 < 2 ^ 63))

/-- The value of an event is in range, or it is not recorded, exactly when it is
not negative. -/
theorem backPassed_inRange_iff {h : BackHandler} (high : 1000000000 ≤ h.hi.highest)
    (delivery : Delivery D) :
    (∀ value, backPassed delivery = some value → h.hi.InRange value) ↔ NotAhead delivery := by
  obtain ⟨nanoTime, message⟩ := delivery
  cases message with
  | structString text => simp [backPassed, NotAhead]
  | marketEvent mdata =>
    have limit : (1000000000 : Int64).toInt = 1000000000 := rfl
    simp only [backPassed, NotAhead]
    rw [← Java.Int64.sub_nonneg_iff]
    generalize nanoTime - mdata.sendTimeStampNanos = value
    by_cases guard : value < 1000000000
    · rw [if_pos guard]
      rw [Int64.lt_iff_toInt_lt, limit] at guard
      constructor
      · intro all
        exact (all _ rfl).1
      · intro nonneg v passed
        cases passed
        exact ⟨nonneg, by omega⟩
    · rw [if_neg guard]
      rw [Int64.lt_iff_toInt_lt, limit] at guard
      constructor
      · intro _
        omega
      · intro _ v passed
        cases passed

/-- The handler is safe exactly when no event is ahead of the clock. -/
theorem back_safe_iff (deliveries : List (Delivery D)) :
    (ValuesInRange back backStep BackHandler.initial deliveries ↔
        ∀ delivery ∈ deliveries, NotAhead delivery) ∧
      (NoneThrown back backStep BackHandler.initial deliveries ↔
        ∀ delivery ∈ deliveries, NotAhead delivery) := by
  obtain ⟨h, ran⟩ := exec_back deliveries BackHandler.initial
  exact safe_iff back_calls (fun pre u before => backPassed_inRange_iff (back_highest pre u before)) rfl ran

end

/-! ## The two sites without a guard -/

/-- Where every sample is recorded in a histogram of 10 seconds. -/
theorem sample_safe_iff {site : Site σ} {step : σ → α → Option σ} {init s : σ}
    {acts : List α} (sampleOf : α → Option Sample)
    (calls : ∀ u v act, step u act = some v →
      site.Calls u v ((sampleOf act).map Sample.latency))
    (highest : ∀ pre u, exec step init pre = some u → (site.histogram u).highest = range)
    (start : site.thrown init = []) (ran : exec step init acts = some s) :
    (ValuesInRange site step init acts ↔
        ∀ sample ∈ acts.filterMap sampleOf, wrapped sample ≤ 10000000000) ∧
      (NoneThrown site step init acts ↔
        ∀ sample ∈ acts.filterMap sampleOf, wrapped sample ≤ 10000000000) := by
  have good_iff : ∀ pre u, exec step init pre = some u → ∀ act,
      (∀ value, (sampleOf act).map Sample.latency = some value → (site.histogram u).InRange value) ↔
        ∀ sample, sampleOf act = some sample → wrapped sample ≤ 10000000000 := by
    intro pre u before act
    have inRange_iff (sample : Sample) :
        (site.histogram u).InRange sample.latency ↔ wrapped sample ≤ 10000000000 := by
      rw [← withinRange_iff, WithinRange, Histogram.InRange, highest pre u before]
      rfl
    simp [Option.map_eq_some_iff, inRange_iff]
  have samples : (∀ sample ∈ acts.filterMap sampleOf, wrapped sample ≤ 10000000000) ↔
      ∀ act ∈ acts, ∀ sample, sampleOf act = some sample → wrapped sample ≤ 10000000000 := by
    simp only [List.mem_filterMap]
    grind
  rw [samples]
  exact safe_iff calls good_iff start ran

section

open Sap.RTTClient.DoSubcribe

/-- An exception ends `doSubcribe`, so there is at most one. -/
def subscriber : Site Subscriber where
  histogram := Subscriber.hi
  keeps s t hi := t.hi = hi ∨ t.reports = s.reports ++ [hi]
  thrown s :=
    match s.pc with
    | .threw thrown => [thrown]
    | _ => []

def rowOf : Act → Option Sample
  | .row row => some row
  | _ => none

theorem subscriber_thrown {s : Subscriber} (alive : ∀ thrown, s.pc ≠ .threw thrown) :
    subscriber.thrown s = [] := by
  cases pc : s.pc with
  | threw thrown => exact absurd pc (alive thrown)
  | _ => simp [subscriber, pc]

theorem alive_of_step {s t : Subscriber} {act : Act} (move : step s act = some t) :
    ∀ thrown, s.pc ≠ .threw thrown := by
  intro thrown pc
  rw [no_step_after_end (by simp [pc])] at move
  cases move

theorem subscriber_calls (s t : Subscriber) (act : Act) (move : step s act = some t) :
    subscriber.Calls s t ((rowOf act).map Sample.latency) := by
  have before := subscriber_thrown (alive_of_step move)
  cases step_cases move with
  | row row reading is_row done =>
    subst is_row done
    change subscriber.Calls s _ (some row.latency)
    by_cases inRange : s.hi.InRange row.latency
    · by_cases last : s.histoCounter + 1 = 200000
      · refine .recorded row.latency inRange ?_ ?_
        · rw [before]
          apply subscriber_thrown
          simp [Subscriber.nextRow, Histogram.recordValue_inRange inRange, last, reading]
        · simp [subscriber, Subscriber.nextRow, Histogram.recordValue_inRange inRange, last,
            Subscriber.reports, Printed.hi, Histogram.create]
      · refine .recorded row.latency inRange ?_ ?_
        · rw [before]
          apply subscriber_thrown
          simp [Subscriber.nextRow, Histogram.recordValue_inRange inRange, last, reading]
        · simp [subscriber, Subscriber.nextRow, Histogram.recordValue_inRange inRange, last,
            Subscriber.reports]
    · refine .threw row.latency inRange ?_ ?_
      · rw [before]
        simp [subscriber, Subscriber.nextRow, Histogram.recordValue_outside inRange]
      · simp [subscriber, Subscriber.nextRow, Histogram.recordValue_outside inRange, Subscriber.reports,
          Histogram.ne_add]
  | quiet notRow hi counter reports alive =>
    have none : rowOf act = none := by cases act <;> simp_all [rows, rowOf]
    rw [none]
    refine .quiet ?_ ?_
    · rw [before, subscriber_thrown alive]
    · simp [subscriber, hi, reports, Histogram.ne_add]

theorem subscriber_highest (acts : List Act) (s : Subscriber)
    (ran : exec step .initial acts = some s) : s.hi.highest = range := by
  refine exec_invariant (fun _ s => s.hi.highest = range) rfl ?_ ran
  intro _ s act t same move
  cases step_cases move with
  | row row reading is_row done =>
    subst done
    unfold Subscriber.nextRow
    split
    · exact same
    · rename_i hi recorded
      have kept := Histogram.highest_of_recordValue recorded
      split
      · rfl
      · exact kept.trans same
  | quiet notRow hi counter reports alive => rw [hi, same]

end

section

open Esper.MDEsper

/-- What the listener throws goes to the engine. -/
def listener : Site Listener where
  histogram := Listener.histo
  keeps s t hi := t.histo = hi ∨ t.printed = s.printed ++ [hi]
  thrown := Listener.escaped

def eventOf : Act → Option Sample
  | .newEvent event => some event
  | _ => none

theorem listener_calls (s t : Listener) (act : Act) (move : step s act = some t) :
    listener.Calls s t ((eventOf act).map Sample.latency) := by
  cases step_cases move with
  | event i length event is_event done =>
    subst is_event done
    change listener.Calls s _ (some event.latency)
    by_cases inRange : s.histo.InRange event.latency
    · by_cases last : 100000000 < s.count + 1
      · refine .recorded event.latency inRange ?_ ?_
        · simp [listener, Listener.newEvent, Histogram.recordValue_inRange inRange, last]
        · simp [listener, Listener.newEvent, Histogram.recordValue_inRange inRange, last, Histogram.reset]
      · refine .recorded event.latency inRange ?_ ?_
        · simp [listener, Listener.newEvent, Histogram.recordValue_inRange inRange, last]
        · simp [listener, Listener.newEvent, Histogram.recordValue_inRange inRange, last]
    · refine .threw event.latency inRange ?_ ?_
      · simp [listener, Listener.newEvent, Histogram.recordValue_outside inRange]
      · simp [listener, Listener.newEvent, Histogram.recordValue_outside inRange, Histogram.ne_add]
  | quiet notEvent histo count printed escaped =>
    have none : eventOf act = none := by cases act <;> simp_all [events, eventOf]
    rw [none]
    exact .quiet escaped (by simp [listener, histo, printed, Histogram.ne_add])

theorem listener_highest (acts : List Act) (s : Listener)
    (ran : exec step .initial acts = some s) : s.histo.highest = range := by
  refine exec_invariant (fun _ s => s.histo.highest = range) rfl ?_ ran
  intro _ s act t same move
  cases step_cases move with
  | event i length event is_event done =>
    subst done
    unfold Listener.newEvent
    split
    · exact same
    · rename_i histo recorded
      have kept := Histogram.highest_of_recordValue recorded
      split
      · exact kept.trans same
      · exact kept.trans same
  | quiet notEvent histo count printed escaped => rw [histo, same]

end

/-- No recorded latency is out of range in a run, and none is thrown for, exactly
when no timestamp that comes in is ahead of the clock, at the guarded site, and
exactly when all clocks are 0 to 10 seconds ahead of the timestamps, at the others. -/
theorem recorded_in_range_iff {D : Type} :
    (∀ deliveries : List (Delivery D),
      (ValuesInRange back backStep BackHandler.initial deliveries ↔
          ∀ delivery ∈ deliveries, NotAhead delivery) ∧
        (NoneThrown back backStep BackHandler.initial deliveries ↔
          ∀ delivery ∈ deliveries, NotAhead delivery)) ∧
    (∀ acts s, exec Sap.RTTClient.DoSubcribe.step .initial acts = some s →
      (ValuesInRange subscriber Sap.RTTClient.DoSubcribe.step .initial acts ↔
          ∀ row ∈ Sap.RTTClient.DoSubcribe.rows acts, wrapped row ≤ 10000000000) ∧
        (NoneThrown subscriber Sap.RTTClient.DoSubcribe.step .initial acts ↔
          ∀ row ∈ Sap.RTTClient.DoSubcribe.rows acts, wrapped row ≤ 10000000000)) ∧
    ∀ acts s, exec Esper.MDEsper.step .initial acts = some s →
      (ValuesInRange listener Esper.MDEsper.step .initial acts ↔
          ∀ event ∈ Esper.MDEsper.events acts, wrapped event ≤ 10000000000) ∧
        (NoneThrown listener Esper.MDEsper.step .initial acts ↔
          ∀ event ∈ Esper.MDEsper.events acts, wrapped event ≤ 10000000000) := by
  refine ⟨back_safe_iff, fun acts s ran => ?_, fun acts s ran => ?_⟩
  · exact sample_safe_iff rowOf subscriber_calls subscriber_highest rfl ran
  · exact sample_safe_iff eventOf listener_calls listener_highest rfl ran

/-- An event of 50 nanoseconds, END, an event that the guard leaves out and one that
the new histogram takes. -/
def fourDeliveries : List (Delivery Java.Exact) :=
  let event (time : Int64) := Message.marketEvent { MarketEvent.empty with sendTimeStampNanos := time }
  [(1050, event 1000), (1060, .structString "END"), (3000000000, event 1100), (3000000000, event 2999999000)]

theorem recorded_in_range_three_rows :
    (ValuesInRange back backStep BackHandler.initial fourDeliveries ∧
        NoneThrown back backStep BackHandler.initial fourDeliveries) ∧
      (ValuesInRange subscriber Sap.RTTClient.DoSubcribe.step .initial threeRows ∧
        NoneThrown subscriber Sap.RTTClient.DoSubcribe.step .initial threeRows) ∧
      ValuesInRange listener Esper.MDEsper.step .initial twoEvents ∧
        NoneThrown listener Esper.MDEsper.step .initial twoEvents := by
  obtain ⟨backIff, subscriberIff, listenerIff⟩ := recorded_in_range_iff (D := Java.Exact)
  have notAhead : ∀ delivery ∈ fourDeliveries, NotAhead delivery := by decide
  obtain ⟨backValues, backNone⟩ := backIff fourDeliveries
  obtain ⟨subscriberValues, subscriberNone⟩ := subscriberIff threeRows _ rfl
  obtain ⟨listenerValues, listenerNone⟩ := listenerIff twoEvents _ rfl
  exact ⟨⟨backValues.mpr notAhead, backNone.mpr notAhead⟩,
    ⟨subscriberValues.mpr (by decide +kernel), subscriberNone.mpr (by decide +kernel)⟩,
    listenerValues.mpr (by decide +kernel), listenerNone.mpr (by decide +kernel)⟩

/-- An event stamped one nanosecond ahead of the clock of the handler. -/
def aheadEvent : Delivery Java.Exact := (0, .marketEvent { MarketEvent.empty with sendTimeStampNanos := 1 })

/-- The timestamp ahead of the clock is out of range at all three sites. -/
theorem recorded_out_of_range :
    ¬ (∀ deliveries : List (Delivery Java.Exact),
      ValuesInRange back backStep BackHandler.initial deliveries ∧
        NoneThrown back backStep BackHandler.initial deliveries) ∧
    ¬ (∀ acts s, exec Sap.RTTClient.DoSubcribe.step .initial acts = some s →
      ValuesInRange subscriber Sap.RTTClient.DoSubcribe.step .initial acts ∧
        NoneThrown subscriber Sap.RTTClient.DoSubcribe.step .initial acts) ∧
    ¬ ∀ acts s, exec Esper.MDEsper.step .initial acts = some s →
      ValuesInRange listener Esper.MDEsper.step .initial acts ∧
        NoneThrown listener Esper.MDEsper.step .initial acts := by
  refine ⟨fun claim => ?_, fun claim => ?_, fun claim => ?_⟩
  · have quiet := (claim [aheadEvent]).2 _ rfl
    revert quiet
    decide +kernel
  · have quiet := (claim [.event .data, .row ⟨1, 0⟩] _ rfl).2 _ rfl
    revert quiet
    decide +kernel
  · have quiet := (claim [.update (some 1), .newEvent ⟨1, 0⟩] _ rfl).2 _ rfl
    revert quiet
    decide +kernel

end StreamingPoc.Latency
