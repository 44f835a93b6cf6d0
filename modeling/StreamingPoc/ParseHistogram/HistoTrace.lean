import StreamingPoc.Lib.Sections
import StreamingPoc.ParseHistogram.HistoParse

/-!
# What parseLines dumps and returns

A line is a header, a well-formed data line or junk; `parseLines` is the reader
of the sections of these marks, with histograms for the sections. A token counts
as `parseLines` sees it, after `trim`.
-/
namespace StreamingPoc.ParseHistogram

open StreamingPoc.Java StreamingPoc.Lib
open POCHistogram (ofAdds ofAdds_append_singleton pairs pairs_ofAdds)

def isHeader (line : JString) : Bool := startsWith (trim line) (literal "Value")

variable {D : Type} (parseDouble : JString → Option D)

/-- The values of a well-formed data line. -/
def wellFormed (line : JString) : Option (D × Int32) :=
  if isHeader line ∨ startsWith (trim line) (literal "#") ∨ trim line = [] then none
  else
    let tokens := (splitSpaces (trim line)).map trim
    (tokens[0]?.bind parseDouble).bind fun time =>
      (tokens[2]?.bind parseInt).map fun count => (time, count)

def classify (line : JString) : Mark (D × Int32) :=
  if isHeader line then .head
  else
    match wellFormed parseDouble line with
    | some entry => .item entry
    | none => .junk

def Printed.dumped : Printed D → Option (POCHistogram D)
  | .dump h => some h
  | .line _ => none

variable [JDouble D]

/-- The histograms `parseLines` dumps, each as it is at the call. -/
def dumpTrace (lines : List JString) : List (POCHistogram D) :=
  (parseLines parseDouble (lines.map some)).1.filterMap Printed.dumped

/-- `parseLines` returns what it parsed: one histogram for each header. -/
def ReturnsWhatItParsed (lines : List JString) : Prop :=
  ∃ res, (parseLines parseDouble (lines.map some)).2 = .ok res ∧
    res.map pairs = sections (lines.map (classify parseDouble))

/-- The reader whose sections are the adds of the histograms of `s`. Nothing is
ever added to `res`. -/
structure Reads (s : Parse D) (r : Reader (D × Int32)) : Prop where
  dumped : s.printed.filterMap Printed.dumped = r.finished.map ofAdds
  current : s.currHisto = r.current.map ofAdds
  res : s.res = []

theorem reads_initial : Reads (Parse.initial : Parse D) Reader.initial := ⟨rfl, rfl, rfl⟩

/-- The catch block changes neither the dumps nor the histogram. -/
theorem Reads.printLine {s : Parse D} {r : Reader (D × Int32)} (reads : Reads s r)
    (text : JString) : Reads { s with printed := s.printed ++ [.line text] } r :=
  ⟨by simp [reads.dumped, Printed.dumped], reads.current, reads.res⟩

theorem tryLine_header (s : Parse D) {line : JString} (header : isHeader line) :
    tryLine parseDouble s (some line) = .ok { s with
      printed := s.printed ++ (s.currHisto.map .dump).toList
      currHisto := some .new } := by
  unfold isHeader at header
  simp [tryLine, orThrow, header, bind, Except.bind, pure, Except.pure]

/-- A well-formed line is added to the histogram; without one it throws. -/
theorem tryLine_wellFormed (s : Parse D) {line : JString} {entry : D × Int32}
    (values : wellFormed parseDouble line = some entry) :
    tryLine parseDouble s (some line) = (orThrow .nullPointer s.currHisto).map fun h =>
      { s with currHisto := some (h.add entry.1 entry.2) } := by
  unfold wellFormed isHeader at values
  split at values
  · cases values
  · rename_i data
    rw [not_or, not_or] at data
    obtain ⟨notHeader, notComment, notBlank⟩ := data
    simp only [Option.bind_eq_some_iff, Option.map_eq_some_iff, List.getElem?_map] at values
    obtain ⟨time, ⟨_, ⟨timeText, at0, rfl⟩, time_ok⟩, count, ⟨_, ⟨countText, at2, rfl⟩, count_ok⟩,
      rfl⟩ := values
    have nonempty : (trim line).length ≠ 0 := by simpa using notBlank
    simp only [tryLine, orThrow, notHeader, notComment, nonempty, at0, at2, time_ok, count_ok,
      bind, Except.bind, pure, Except.pure]
    cases s.currHisto <;> rfl

/-- A line that is no header and not well formed changes nothing or throws. -/
theorem tryLine_junk (s : Parse D) {line : JString} (notHeader : ¬ isHeader line)
    (values : wellFormed parseDouble line = none) :
    tryLine parseDouble s (some line) = .ok s ∨
      ∃ thrown, tryLine parseDouble s (some line) = .error thrown := by
  unfold wellFormed at values
  unfold isHeader at notHeader values
  by_cases comment : startsWith (trim line) (literal "#")
  · left
    simp [tryLine, orThrow, notHeader, comment, bind, Except.bind, pure, Except.pure]
  by_cases blank : trim line = []
  · left
    rw [blank] at notHeader comment
    simp [tryLine, orThrow, notHeader, comment, blank, bind, Except.bind, pure, Except.pure]
  have nonempty : (trim line).length ≠ 0 := by simpa using blank
  right
  simp only [notHeader, comment, blank, or_self, if_false, List.getElem?_map,
    Bool.false_eq_true] at values
  simp only [tryLine, orThrow, notHeader, comment, nonempty, bind, Except.bind, if_false]
  -- the first of the four conditions that fails is the one that throws
  cases at0 : (splitSpaces (trim line))[0]? with
  | none => exact ⟨_, rfl⟩
  | some timeText =>
    cases time_ok : parseDouble (trim timeText) with
    | none => exact ⟨.numberFormat, by simp [time_ok]⟩
    | some time =>
      cases at2 : (splitSpaces (trim line))[2]? with
      | none => exact ⟨.arrayIndexOutOfBounds, by simp [time_ok]⟩
      | some countText =>
        cases count_ok : parseInt (trim countText) with
        | none => exact ⟨.numberFormat, by simp [time_ok, count_ok]⟩
        | some count => simp [at0, time_ok, at2, count_ok] at values

/-- One line is one mark to the reader, and nothing escapes from the loop. -/
theorem reads_parseLine {s : Parse D} {r : Reader (D × Int32)} (reads : Reads s r)
    (line : JString) :
    (parseLine parseDouble s (some line)).2 = none ∧
      Reads (parseLine parseDouble s (some line)).1 (r.read (classify parseDouble line)) := by
  unfold classify parseLine
  by_cases header : isHeader line
  · rw [tryLine_header parseDouble s header, if_pos header]
    refine ⟨rfl, ?_, rfl, reads.res⟩
    rw [List.filterMap_append, reads.dumped, reads.current]
    rcases r with ⟨finished, _ | adds⟩ <;> simp [Reader.read, Printed.dumped]
  rw [if_neg header]
  cases values : wellFormed parseDouble line with
  | some entry =>
    have tried := tryLine_wellFormed parseDouble s values
    rcases r with ⟨finished, _ | adds⟩
    · rw [reads.current] at tried
      rw [tried]
      exact ⟨rfl, reads.printLine line⟩
    · rw [reads.current] at tried
      rw [tried]
      refine ⟨rfl, reads.dumped, ?_, reads.res⟩
      simp [Reader.read, ofAdds_append_singleton, orThrow, Except.map]
  | none =>
    rcases tryLine_junk parseDouble s header values with same | ⟨thrown, throws⟩
    · rw [same]
      exact ⟨rfl, reads⟩
    · rw [throws]
      exact ⟨rfl, reads.printLine line⟩

/-- The loop reads the marks of all lines, and nothing escapes from it. -/
theorem reads_parseLoop {s : Parse D} {r : Reader (D × Int32)} (reads : Reads s r)
    (lines : List JString) :
    (parseLoop parseDouble s (lines.map some)).2 = none ∧
      Reads (parseLoop parseDouble s (lines.map some)).1
        ((lines.map (classify parseDouble)).foldl Reader.read r) := by
  induction lines generalizing s r with
  | nil => exact ⟨rfl, reads⟩
  | cons line lines ih =>
    obtain ⟨stays, next⟩ := reads_parseLine parseDouble reads line
    rcases parsed : parseLine parseDouble s (some line) with ⟨t, thrown⟩
    rw [parsed] at stays next
    obtain rfl : thrown = none := stays
    simp only [List.map_cons, parseLoop, parsed, List.foldl_cons]
    exact ih next

omit [JDouble D] in
theorem classify_header (line : JString) : classify parseDouble line = .head ↔ isHeader line := by
  unfold classify
  split
  · rename_i header
    exact ⟨fun _ => header, fun _ => rfl⟩
  · rename_i notHeader
    refine ⟨fun head => ?_, fun header => absurd header notHeader⟩
    split at head <;> cases head

/-- With a header, `parseLines` dumps the sections and returns an empty list. -/
theorem parseLines_spec (lines : List JString) (header : ∃ line ∈ lines, isHeader line) :
    dumpTrace parseDouble lines = (sections (lines.map (classify parseDouble))).map ofAdds ∧
      (parseLines parseDouble (lines.map some)).2 = .ok [] := by
  obtain ⟨stays, reads⟩ := reads_parseLoop parseDouble (reads_initial (D := D)) lines
  have opened : ((lines.map (classify parseDouble)).foldl Reader.read .initial).current.isSome := by
    rw [Reader.current_isSome_foldl]
    obtain ⟨line, member, head⟩ := header
    simp only [Bool.or_eq_true, List.any_eq_true, List.mem_map]
    exact .inr ⟨.head, ⟨line, member, (classify_header parseDouble line).mpr head⟩, rfl⟩
  obtain ⟨adds, current⟩ := Option.isSome_iff_exists.mp opened
  have closed := Reader.close_foldl (lines.map (classify parseDouble))
  rcases looped : parseLoop parseDouble .initial (lines.map some) with ⟨s, thrown⟩
  rw [looped] at stays reads
  obtain rfl : thrown = none := stays
  have last : s.currHisto = some (ofAdds adds) := by rw [reads.current, current]; rfl
  unfold dumpTrace parseLines
  simp only [looped, last]
  refine ⟨?_, by rw [reads.res]⟩
  rw [← closed, Reader.close, current, List.filterMap_append, reads.dumped]
  simp [Printed.dumped]

/-- A malformed, blank or '#' line. -/
def Junk (line : JString) : Prop := ¬ isHeader line ∧ wellFormed parseDouble line = none

omit [JDouble D] in
/-- Junk, and any line but a header in front of the first header, is in no section. -/
theorem sections_insert (xs ys : List JString) (line : JString)
    (inert : Junk parseDouble line ∨ ¬ isHeader line ∧ ∀ x ∈ xs, ¬ isHeader x) :
    sections ((xs ++ line :: ys).map (classify parseDouble)) =
      sections ((xs ++ ys).map (classify parseDouble)) := by
  have notHeader : ¬ isHeader line := inert.elim And.left And.left
  rw [List.map_append, List.map_cons, List.map_append]
  cases mark : classify parseDouble line with
  | head => exact absurd ((classify_header parseDouble line).mp mark) notHeader
  | junk => exact sections_append_junk _ _
  | item entry =>
    rcases inert with ⟨-, malformed⟩ | ⟨-, headless⟩
    · rw [classify, if_neg notHeader, malformed] at mark
      cases mark
    · apply sections_append_orphan
      intro member
      obtain ⟨x, x_mem, head⟩ := List.mem_map.mp member
      exact headless x x_mem ((classify_header parseDouble x).mp head)

omit [JDouble D] in
theorem countP_isHeader (lines : List JString) :
    (sections (lines.map (classify parseDouble))).length = lines.countP isHeader := by
  rw [sections_length, List.countP_map]
  apply List.countP_congr
  intro line _
  rw [← classify_header parseDouble line]
  cases mark : classify parseDouble line <;> simp [mark]

/-- The dump trace is one dump per header with the well-formed lines after it and
their greatest count; malformed lines and lines before the first header change
nothing; and a list that begins with a header dumps the same after any list. -/
theorem dump_trace_faithful (lines : List JString) (header : ∃ line ∈ lines, isHeader line) :
    ((dumpTrace parseDouble lines).map pairs = sections (lines.map (classify parseDouble)) ∧
        (dumpTrace parseDouble lines).length = lines.countP isHeader ∧
        ∀ h ∈ dumpTrace parseDouble lines, h.maxCount = (h.pairs.map Prod.snd).foldl max 0) ∧
      (∀ xs line ys, lines = xs ++ ys →
        Junk parseDouble line ∨ ¬ isHeader line ∧ (∀ x ∈ xs, ¬ isHeader x) →
        dumpTrace parseDouble (xs ++ line :: ys) = dumpTrace parseDouble lines) ∧
      ∀ first rest, isHeader first →
        dumpTrace parseDouble (lines ++ first :: rest) =
          dumpTrace parseDouble lines ++ dumpTrace parseDouble (first :: rest) := by
  have trace := (parseLines_spec parseDouble lines header).1
  refine ⟨⟨?_, ?_, ?_⟩, ?_, ?_⟩
  · rw [trace, List.map_map]
    exact List.map_id'' pairs_ofAdds _
  · rw [trace, List.length_map, countP_isHeader]
  · intro h _
    rw [h.maxCount_eq, greatestCount, pairs, List.map_map]
    rfl
  · rintro xs line ys rfl inert
    have header' : ∃ x ∈ xs ++ line :: ys, isHeader x := by
      obtain ⟨x, member, head⟩ := header
      refine ⟨x, ?_, head⟩
      simp only [List.mem_append, List.mem_cons] at member ⊢
      exact member.imp_right .inr
    rw [(parseLines_spec parseDouble _ header').1, trace, sections_insert parseDouble xs ys line inert]
  · intro first rest head
    have header_rest : ∃ x ∈ first :: rest, isHeader x := ⟨first, List.mem_cons_self, head⟩
    have header_all : ∃ x ∈ lines ++ first :: rest, isHeader x :=
      ⟨first, List.mem_append_right _ List.mem_cons_self, head⟩
    have mark := (classify_header parseDouble first).mpr head
    rw [(parseLines_spec parseDouble _ header_all).1, (parseLines_spec parseDouble _ header_rest).1,
      trace, List.map_append, List.map_cons, mark, sections_append_head, List.map_append]

/-- A listing with a line in front of its header, a comment and a broken line. -/
def sampleLines : List JString :=
  ["9.00 0.9 9", " Value  TotalCount ", "", "0.00 0.0  5", "#[Mean]", "1.00 0.5 x", "1.00 0.5 7"].map
    literal

def sampleDouble (text : JString) : Option Exact :=
  if text = literal "0.00" then some (.finite 0)
  else if text = literal "1.00" then some (.finite 1)
  else if text = literal "9.00" then some (.finite 9)
  else none

theorem dump_trace_faithful_sample :
    (dumpTrace sampleDouble sampleLines).map pairs = [[(.finite 0, 5), (.finite 1, 7)]] := by
  have header : ∃ line ∈ sampleLines, isHeader line := by decide +kernel
  rw [(dump_trace_faithful sampleDouble sampleLines header).1.1]
  decide +kernel

/-- The list that `parseLines` returns is empty whatever it parsed: there is no
`res.add`, and `main` writes no file. -/
theorem parseLines_returns_nothing (lines : List JString)
    (header : ∃ line ∈ lines, isHeader line) :
    (parseLines parseDouble (lines.map some)).2 = .ok [] ∧
      ¬ ReturnsWhatItParsed parseDouble lines := by
  have returned := (parseLines_spec parseDouble lines header).2
  refine ⟨returned, ?_⟩
  rintro ⟨res, parsed, histograms⟩
  rw [returned, Except.ok.injEq] at parsed
  subst parsed
  obtain ⟨line, member, head⟩ := header
  have head_mem : .head ∈ lines.map (classify parseDouble) :=
    List.mem_map.mpr ⟨line, member, (classify_header parseDouble line).mpr head⟩
  exact sections_ne_nil head_mem histograms.symm

theorem parseLines_returns_nothing_sample :
    ¬ ReturnsWhatItParsed sampleDouble sampleLines :=
  (parseLines_returns_nothing sampleDouble sampleLines (by decide +kernel)).2

/-- One header line: its histogram is dumped and not returned. -/
theorem parseLines_loses_histogram :
    ¬ ∀ (parseDouble : JString → Option Exact) (lines : List JString),
      (∃ line ∈ lines, isHeader line) → ReturnsWhatItParsed parseDouble lines := by
  intro claim
  obtain ⟨res, returned, histograms⟩ :=
    claim (fun _ => none) [literal "Value"] (by decide +kernel)
  have empty : (parseLines (fun _ => none) ([literal "Value"].map some)).2 =
      .ok ([] : List (POCHistogram Exact)) := by decide +kernel
  rw [empty, Except.ok.injEq] at returned
  subst returned
  revert histograms
  decide +kernel

end StreamingPoc.ParseHistogram
