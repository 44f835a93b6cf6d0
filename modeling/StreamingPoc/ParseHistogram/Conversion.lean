import StreamingPoc.ParseHistogram.CsvFiles
import StreamingPoc.ParseHistogram.HistoTrace

/-!
# The conversion of a directory

The file loop of `HistoParse.main` with `readFile` and `parseLines` in it; an
exception that escapes from the parse of a file ends the program. The catch block
contains whatever a line throws. The `dump` after the loop over the lines lacks
the null test that the `dump` inside it has.
-/
namespace StreamingPoc.ParseHistogram

open StreamingPoc.Java StreamingPoc.Lib

/-- What ends the file loop. -/
inductive FileThrown where
  | io
  | parse (thrown : Thrown)
  deriving DecidableEq, Repr

/-- The disk and what was printed. -/
structure Converting (D : Type) where
  disk : Disk
  printed : List (Printed D)

variable {D : Type} [JDouble D] (parseDouble : JString → Option D) (doubleText : D → JString)

/-- `parse(file)`: `readFile`, which gives no null lines, and `parseLines`. -/
def parse (disk : Disk) (file : File) :
    List (Printed D) × Except FileThrown (List (POCHistogram D)) :=
  match disk file.path with
  | none => ([], .error .io)
  | some lines =>
    match parseLines parseDouble (lines.map some) with
    | (printed, .error thrown) => (printed, .error (.parse thrown))
    | (printed, .ok histograms) => (printed, .ok histograms)

/-- One pass of the file loop. -/
def convertFile (s : Converting D) (file : File) (i : Nat) : Converting D × Option FileThrown :=
  if file.isTxt then
    match parse parseDouble s.disk file with
    | (printed, .error thrown) => ({ s with printed := s.printed ++ printed }, some thrown)
    | (printed, .ok histograms) =>
      ({ disk := writeHistograms doubleText file i histograms s.disk
         printed := s.printed ++ printed }, none)
  else (s, none)

def convertFiles (s : Converting D) : List (File × Nat) → Converting D × Option FileThrown
  | [] => (s, none)
  | (file, i) :: rest =>
    match convertFile parseDouble doubleText s file i with
    | (next, none) => convertFiles next rest
    | (next, some thrown) => (next, some thrown)

/-- The file loop of `main`, from a disk. -/
def convert (f : List File) (disk : Disk) : Converting D × Option FileThrown :=
  convertFiles parseDouble doubleText { disk, printed := [] } f.zipIdx

/-- No line throws out of its iteration, whatever was read before it, and the
call returns. -/
structure ReturnsNormally (lines : List JString) : Prop where
  contained : ∀ (s : Parse D), ∀ line ∈ lines, (parseLine parseDouble s (some line)).2 = none
  returned : ∃ res, (parseLines parseDouble (lines.map some)).2 = .ok res

def linesOf (disk : Disk) (file : File) : List JString := (disk file.path).getD []

/-- What the parse of a text file prints. -/
def printedFor (disk : Disk) (file : File) : List (Printed D) :=
  if file.isTxt then (parseLines parseDouble ((linesOf disk file).map some)).1 else []

/-- What the parse of a text file returns. -/
def returnedFor (disk : Disk) (file : File) : List (POCHistogram D) :=
  match (parseLines parseDouble ((linesOf disk file).map some)).2 with
  | .ok histograms => histograms
  | .error _ => []

/-- The loop parses all text files: it completes, has printed what each of them
prints, and has written what `main` writes of each. -/
structure AllParsed (f : List File) (disk : Disk) : Prop where
  completes : (convert parseDouble doubleText f disk).2 = none
  printed : (convert parseDouble doubleText f disk).1.printed =
    f.flatMap (printedFor parseDouble disk)
  written : (convert parseDouble doubleText f disk).1.disk =
    HistoParse.main doubleText (returnedFor parseDouble disk) f disk

/-! ## One file -/

/-- The catch block contains every exception of a line that is not null. -/
theorem parseLine_contained (s : Parse D) (line : JString) :
    (parseLine parseDouble s (some line)).2 = none := by
  unfold parseLine
  split <;> rfl

/-- Without a header there is no histogram to dump at the end. -/
theorem parseLines_headless {lines : List JString} (headless : ∀ line ∈ lines, ¬ isHeader line) :
    (parseLines parseDouble (lines.map some)).2 = .error .nullPointer := by
  obtain ⟨stays, reads⟩ := reads_parseLoop parseDouble (reads_initial (D := D)) lines
  have closed : ((lines.map (classify parseDouble)).foldl Reader.read .initial).current = none := by
    rw [← Option.not_isSome_iff_eq_none, Reader.current_isSome_foldl]
    simp only [Reader.initial, Option.isSome_none, Bool.false_or, List.any_eq_true, List.mem_map]
    rintro ⟨mark, ⟨line, member, rfl⟩, head⟩
    cases mark : classify parseDouble line with
    | head => exact headless line member ((classify_header parseDouble line).mp mark)
    | item entry => simp [mark] at head
    | junk => simp [mark] at head
  rcases looped : parseLoop parseDouble .initial (lines.map some) with ⟨s, thrown⟩
  rw [looped] at stays reads
  obtain rfl : thrown = none := stays
  have last : s.currHisto = none := by rw [reads.current, closed]; rfl
  unfold parseLines
  simp only [looped, last]

theorem parseLines_returns_iff (lines : List JString) :
    (∃ res, (parseLines parseDouble (lines.map some)).2 = .ok res) ↔
      ∃ line ∈ lines, isHeader line := by
  constructor
  · rintro ⟨res, returned⟩
    by_contra headless
    rw [parseLines_headless parseDouble (by simpa using headless)] at returned
    cases returned
  · intro header
    exact ⟨[], (parseLines_spec parseDouble lines header).2⟩

theorem returnsNormally_iff (lines : List JString) :
    ReturnsNormally parseDouble lines ↔ ∃ line ∈ lines, isHeader line := by
  rw [← parseLines_returns_iff parseDouble]
  exact ⟨ReturnsNormally.returned, fun returned =>
    ⟨fun s line _ => parseLine_contained parseDouble s line, returned⟩⟩

/-! ## The file loop -/

/-- A disk on which the text files are as on `disk`. -/
def SameInputs (disk now : Disk) : Prop := ∀ input : File, input.isTxt → now input.path = disk input.path

theorem writeHistograms_keeps {disk now : Disk} (same : SameInputs disk now) (file : File) (i : Nat)
    (histograms : List (POCHistogram D)) :
    SameInputs disk (writeHistograms doubleText file i histograms now) := by
  intro input txt
  have writes : writeHistograms doubleText file i histograms now =
      writeAll now (histograms.map fun h => (newFileName file i, csvRows doubleText h)) := by
    simp only [writeHistograms, writeAll, List.foldl_map]
  rw [writes, writeAll_frame, same input txt]
  intro w member
  obtain ⟨h, -, rfl⟩ := List.mem_map.mp member
  exact newFileName_ne_path file i txt

/-- The pass over a file that is no text file, or has a header, goes to the next
file; any other ends the loop. -/
theorem convertFile_spec {disk : Disk} {s : Converting D} (same : SameInputs disk s.disk)
    (file : File) (i : Nat) (readable : file.isTxt → (disk file.path).isSome) :
    ((convertFile parseDouble doubleText s file i).2 = none ↔
        (file.isTxt → ∃ line ∈ linesOf disk file, isHeader line)) ∧
      ((convertFile parseDouble doubleText s file i).2 = none →
        (convertFile parseDouble doubleText s file i).1 =
          { disk := if file.isTxt then
              writeHistograms doubleText file i (returnedFor parseDouble disk file) s.disk else s.disk
            printed := s.printed ++ printedFor parseDouble disk file }) := by
  by_cases txt : file.isTxt
  · obtain ⟨lines, stored⟩ := Option.isSome_iff_exists.mp (readable txt)
    have lines_eq : linesOf disk file = lines := by rw [linesOf, stored]; rfl
    have returns := parseLines_returns_iff parseDouble lines
    unfold convertFile parse printedFor returnedFor
    rw [same file txt, stored, lines_eq]
    rcases parsed : parseLines parseDouble (lines.map some) with ⟨printed, thrown | histograms⟩
    · rw [parsed] at returns
      simp [txt, parsed, ← returns]
    · rw [parsed] at returns
      simp [txt, parsed, ← returns]
  · simp [convertFile, printedFor, txt]

/-- The loop passes over all files, as the loop of `main` does with what their
parses return, or it meets a text file without a header. -/
theorem convertFiles_spec {disk : Disk} {s : Converting D} (same : SameInputs disk s.disk)
    (entries : List (File × Nat))
    (readable : ∀ entry ∈ entries, entry.1.isTxt → (disk entry.1.path).isSome) :
    ((convertFiles parseDouble doubleText s entries).2 = none ↔
        ∀ entry ∈ entries, entry.1.isTxt → ∃ line ∈ linesOf disk entry.1, isHeader line) ∧
      ((convertFiles parseDouble doubleText s entries).2 = none →
        (convertFiles parseDouble doubleText s entries).1 =
          { disk := entries.foldl (fun now entry =>
              if entry.1.isTxt then writeHistograms doubleText entry.1 entry.2
                (returnedFor parseDouble disk entry.1) now else now) s.disk
            printed := s.printed ++ entries.flatMap fun entry => printedFor parseDouble disk entry.1 }) := by
  induction entries generalizing s with
  | nil => simp [convertFiles]
  | cons entry rest ih =>
    obtain ⟨file, i⟩ := entry
    obtain ⟨passes, next_eq⟩ := convertFile_spec parseDouble doubleText same file i
      (readable (file, i) List.mem_cons_self)
    rcases converted : convertFile parseDouble doubleText s file i with ⟨next, _ | thrown⟩
    · rw [converted] at passes next_eq
      have now := next_eq rfl
      have same_next : SameInputs disk next.disk := by
        simp only at now
        rw [now]
        by_cases txt : file.isTxt
        · simp only [if_pos txt]
          exact writeHistograms_keeps doubleText same file i _
        · simp only [if_neg txt]
          exact same
      obtain ⟨completes, all_eq⟩ := ih same_next fun entry member =>
        readable entry (List.mem_cons_of_mem _ member)
      simp only [convertFiles, converted, completes, List.forall_mem_cons, List.foldl_cons,
        List.flatMap_cons]
      refine ⟨⟨fun headers => ⟨passes.mp rfl, headers⟩, And.right⟩, fun headers => ?_⟩
      rw [all_eq (completes.mpr headers)]
      simp only at now
      rw [now, List.append_assoc]
    · rw [converted] at passes
      have headless := passes.not.mp (by simp)
      have stops : convertFiles parseDouble doubleText s ((file, i) :: rest) = (next, some thrown) := by
        rw [convertFiles, converted]
      rw [stops]
      refine ⟨⟨fun done => ?_, fun headers => ?_⟩, fun done => ?_⟩
      · cases done
      · exact absurd (headers (file, i) List.mem_cons_self) headless
      · cases done

/-- A list of lines is parsed to a normal return exactly when it has a header
line, and the file loop parses all text files of a directory exactly when each
of them has one: the first without ends it. -/
theorem conversion_completes_iff :
    (∀ lines : List JString, ReturnsNormally parseDouble lines ↔ ∃ line ∈ lines, isHeader line) ∧
      ∀ (f : List File) (disk : Disk), (∀ file ∈ f, file.isTxt → (disk file.path).isSome) →
        (AllParsed parseDouble doubleText f disk ↔
          ∀ file ∈ f, file.isTxt → ∃ line ∈ linesOf disk file, isHeader line) := by
  refine ⟨returnsNormally_iff parseDouble, fun f disk readable => ?_⟩
  have entries_iff : ∀ P : File → Prop, (∀ entry ∈ f.zipIdx, P entry.1) ↔ ∀ file ∈ f, P file := by
    intro P
    rw [← List.forall_mem_map (f := Prod.fst), List.zipIdx_map_fst]
  have start : SameInputs disk ({ disk, printed := [] } : Converting D).disk := fun _ _ => rfl
  obtain ⟨completes, all_eq⟩ := convertFiles_spec parseDouble doubleText start f.zipIdx
    ((entries_iff _).mpr readable)
  rw [entries_iff fun file => file.isTxt → ∃ line ∈ linesOf disk file, isHeader line] at completes
  constructor
  · intro parsed
    exact completes.mp parsed.completes
  · intro headers
    have done := completes.mpr headers
    refine ⟨done, ?_, ?_⟩
    · have files := List.flatMap_map Prod.fst (printedFor parseDouble disk) f.zipIdx
      rw [List.zipIdx_map_fst] at files
      rw [convert, all_eq done, List.nil_append, files]
    · rw [convert, all_eq done]
      rfl

/-- A directory with the sample listing and a file that is no text file. -/
def sampleDirectory : List File := [sampleFile, { parent := literal "/hist", name := literal "a.csv" }]

def sampleDisk : Disk := fun path => if path = sampleFile.path then some sampleLines else none

theorem conversion_completes_iff_sample :
    ReturnsNormally sampleDouble sampleLines ∧
      AllParsed sampleDouble sampleText sampleDirectory sampleDisk := by
  have header : ∃ line ∈ sampleLines, isHeader line := by decide +kernel
  obtain ⟨lines_iff, files_iff⟩ := conversion_completes_iff sampleDouble sampleText
  refine ⟨(lines_iff sampleLines).mpr header, (files_iff _ _ (by decide +kernel)).mpr ?_⟩
  intro file member txt
  have only : file = sampleFile := by
    rcases List.mem_cons.mp member with first | rest
    · exact first
    · rw [List.mem_singleton] at rest
      subst rest
      revert txt
      decide
  have stored : linesOf sampleDisk sampleFile = sampleLines := by simp [linesOf, sampleDisk]
  rw [only, stored]
  exact header

/-- The lines of an empty file: the `dump` after the loop has no histogram. -/
theorem empty_file_throws :
    ¬ ∀ (parseDouble : JString → Option Exact) (lines : List JString),
      ReturnsNormally parseDouble lines := by
  intro claim
  obtain ⟨res, returned⟩ := (claim (fun _ => none) []).returned
  have thrown : (parseLines (fun _ => none) (([] : List JString).map some)).2 =
      (.error .nullPointer : Except Thrown (List (POCHistogram Exact))) := rfl
  rw [thrown] at returned
  cases returned

end StreamingPoc.ParseHistogram
