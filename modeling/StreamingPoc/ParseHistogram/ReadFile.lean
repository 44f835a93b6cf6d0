import StreamingPoc.Lib.Lines
import StreamingPoc.ParseHistogram.Conversion
import StreamingPoc.ParseHistogram.Listing

/-!
# HistoParse from the bytes of the files

`readFile` (HistoParse.java:11-20) with the documented `DataInputStream.readLine`:
a line ends at LF, CR, CR LF or the end of the file, a byte is a char, and null
comes only when no byte is left. `main` (58-76) with the sample listing it parses
in the end.
-/
namespace StreamingPoc.ParseHistogram

open StreamingPoc.Java StreamingPoc.Lib
open POCHistogram (pairs)

def readLine (din : List UInt8) : Option (JString × List UInt8) :=
  if din = [] then none
  else
    let (line, rest) := takeLine 0x0A 0x0D din
    some (line.map UInt8.toUInt16, rest)

/-- The while loop; `fuel` is a bound on the number of lines. -/
def readLoop : Nat → List UInt8 → List JString
  | 0, _ => []
  | fuel + 1, din =>
    match readLine din with
    | some (line, rest) => line :: readLoop fuel rest
    | none => []

/-- There are no more lines than bytes. -/
def HistoParse.readFile (bytes : List UInt8) : List JString := readLoop bytes.length bytes

theorem readLoop_eq (fuel : Nat) (din : List UInt8) :
    readLoop fuel din = (takeLines 0x0A 0x0D fuel din).map (List.map UInt8.toUInt16) := by
  induction fuel generalizing din with
  | zero => rfl
  | succ fuel ih =>
    by_cases empty : din = []
    · simp [readLoop, readLine, takeLines, empty]
    · simp [readLoop, readLine, takeLines, empty, ih]

theorem readFile_eq (bytes : List UInt8) :
    HistoParse.readFile bytes = (lines 0x0A 0x0D bytes).map (List.map UInt8.toUInt16) :=
  readLoop_eq _ _

/-- The bound is never reached: `readFile` reads lines until there is none. -/
theorem readFile_unfold (bytes : List UInt8) :
    HistoParse.readFile bytes =
      match readLine bytes with
      | some (line, rest) => line :: HistoParse.readFile rest
      | none => [] := by
  by_cases empty : bytes = []
  · subst empty
    rfl
  · simp [readFile_eq, lines_cons empty, readLine, empty]

/-! ## Files and their lines -/

/-- A line as it can stand in a file: of chars that are bytes, and without an end. -/
def Latin (text : JString) : Prop := ∀ c ∈ text, c < 256 ∧ c ≠ 0x0A ∧ c ≠ 0x0D

instance (text : JString) : Decidable (Latin text) := List.decidableBAll _ text

def encode (text : JString) : List UInt8 := text.map UInt16.toUInt8

/-- The bytes hold the lines, each with some end, the last one with an end or
without, and no CR before an empty line that ends with LF. -/
def Written (texts : List JString) (bytes : List UInt8) : Prop :=
  ∃ entries last, bytes = join 0x0A 0x0D entries last ∧ Unambiguous entries ∧
    entries.map Prod.fst ++ (if last = [] then [] else [last]) = texts.map encode

theorem toUInt16_toUInt8 {c : UInt16} (small : c < 256) : c.toUInt8.toUInt16 = c := by
  rw [← UInt16.toNat_inj, UInt8.toNat_toUInt16, UInt16.toNat_toUInt8]
  exact Nat.mod_eq_of_lt (UInt16.lt_iff_toNat_lt.mp small)

theorem decode_encode {text : JString} (latin : Latin text) : (encode text).map UInt8.toUInt16 = text := by
  rw [encode, List.map_map]
  conv_rhs => rw [← List.map_id text]
  exact List.map_congr_left fun c member => toUInt16_toUInt8 (latin c member).1

theorem noEnds_encode {text : JString} (latin : Latin text) : NoEnds 0x0A 0x0D (encode text) := by
  constructor
  · intro member
    obtain ⟨c, is_char, same⟩ := List.mem_map.mp member
    obtain ⟨small, noLf, -⟩ := latin c is_char
    rw [← toUInt16_toUInt8 small, same] at noLf
    exact noLf rfl
  · intro member
    obtain ⟨c, is_char, same⟩ := List.mem_map.mp member
    obtain ⟨small, -, noCr⟩ := latin c is_char
    rw [← toUInt16_toUInt8 small, same] at noCr
    exact noCr rfl

theorem readFile_of_written {texts : List JString} (latin : ∀ text ∈ texts, Latin text) {bytes : List UInt8}
    (written : Written texts bytes) : HistoParse.readFile bytes = texts := by
  obtain ⟨entries, last, rfl, unambiguous, same⟩ := written
  have clean : ∀ line ∈ entries.map Prod.fst ++ (if last = [] then [] else [last]), NoEnds 0x0A 0x0D line := by
    intro line member
    rw [same] at member
    obtain ⟨text, is_text, rfl⟩ := List.mem_map.mp member
    exact noEnds_encode (latin text is_text)
  have clean_last : NoEnds 0x0A 0x0D last := by
    by_cases empty : last = []
    · rw [empty]
      exact ⟨List.not_mem_nil, List.not_mem_nil⟩
    · exact clean last (by simp [empty])
  rw [readFile_eq, lines_join (by decide) entries last unambiguous
    (fun entry member => clean entry.1 (List.mem_append_left _ (List.mem_map_of_mem member))) clean_last, same,
    List.map_map]
  conv_rhs => rw [← List.map_id texts]
  exact List.map_congr_left fun text member => decode_encode (latin text member)

/-- The files of a disk, by their bytes. -/
abbrev Bytes := JString → Option (List UInt8)

/-- The disk that `parse` reads through `readFile`. -/
def Bytes.disk (bytes : Bytes) : Disk := fun path => (bytes path).map HistoParse.readFile

section

variable {D : Type} [JDouble D] (parseDouble : JString → Option D) (doubleText : D → JString)

/-- The file loop and, if nothing ended it, the parse of the sample listing, whose
result is not used. -/
def runMain (f : List File) (sample : File) (disk : Disk) : Converting D × Option FileThrown :=
  match convert parseDouble doubleText f disk with
  | (s, some thrown) => (s, some thrown)
  | (s, none) =>
    match parse parseDouble s.disk sample with
    | (printed, .error thrown) => ({ s with printed := s.printed ++ printed }, some thrown)
    | (printed, .ok _) => ({ s with printed := s.printed ++ printed }, none)

omit [JDouble D] in
/-- The dumps among what was printed. -/
def Converting.dumps (s : Converting D) : List (POCHistogram D) := s.printed.filterMap Printed.dumped

/-- Whether a file is there and has a header. -/
def parses (disk : Disk) (file : File) : Bool :=
  match disk file.path with
  | some lines => lines.any isHeader
  | none => false

/-- What the parse of a file dumps. -/
def dumpsOf (disk : Disk) (file : File) : List (POCHistogram D) := dumpTrace parseDouble (linesOf disk file)

omit [JDouble D] in
theorem sections_headless {lines : List JString} (headless : ¬ ∃ line ∈ lines, isHeader line) :
    sections (lines.map (classify parseDouble)) = [] := by
  apply List.length_eq_zero_iff.mp
  rw [countP_isHeader, List.countP_eq_zero]
  intro line member head
  exact headless ⟨line, member, head⟩

/-- Lines without a header are dumped nowhere, so the dumps are the sections in any case. -/
theorem dumpTrace_eq (lines : List JString) :
    dumpTrace parseDouble lines = (sections (lines.map (classify parseDouble))).map POCHistogram.ofAdds := by
  by_cases header : ∃ line ∈ lines, isHeader line
  · exact (parseLines_spec parseDouble lines header).1
  · obtain ⟨stays, reads⟩ := reads_parseLoop parseDouble (reads_initial (D := D)) lines
    have closed := Reader.close_foldl (lines.map (classify parseDouble))
    have no_sections := sections_headless parseDouble header
    rw [no_sections, Reader.close, List.append_eq_nil_iff] at closed
    rcases looped : parseLoop parseDouble .initial (lines.map some) with ⟨s, thrown⟩
    rw [looped] at stays reads
    obtain rfl : thrown = none := stays
    have last : s.currHisto = none := by
      rw [reads.current, Option.toList_eq_nil_iff.mp closed.2]
      rfl
    unfold dumpTrace parseLines
    simp only [looped, last]
    rw [reads.dumped, closed.1, no_sections]

theorem dumpsOf_of_not_parses {disk : Disk} {file : File} (missing : parses disk file = false) :
    dumpsOf parseDouble disk file = [] := by
  unfold parses at missing
  rw [dumpsOf, linesOf, dumpTrace_eq]
  split at missing
  · rename_i lines stored
    have headless : ¬ ∃ line ∈ lines, isHeader line := by simpa using missing
    rw [stored, Option.getD_some, sections_headless parseDouble headless, List.map_nil]
  · rename_i stored
    rw [stored]
    rfl

/-- The parse of a file returns nothing or throws, and dumps what it dumps in both cases. -/
theorem parse_cases (disk : Disk) (file : File) :
    ((parse parseDouble disk file).1.filterMap Printed.dumped = dumpsOf parseDouble disk file) ∧
      if parses disk file then (parse parseDouble disk file).2 = .ok []
      else ∃ thrown, (parse parseDouble disk file).2 = .error thrown := by
  cases stored : disk file.path with
  | none =>
    have not_there : parses disk file = false := by rw [parses, stored]
    rw [not_there]
    simp only [parse, stored, dumpsOf, linesOf, Option.getD_none]
    exact ⟨rfl, _, rfl⟩
  | some lines =>
    have dumps : dumpsOf parseDouble disk file = (parseLines parseDouble (lines.map some)).1.filterMap Printed.dumped := by
      rw [dumpsOf, linesOf, stored]
      rfl
    have headed : parses disk file = lines.any isHeader := by rw [parses, stored]
    rw [dumps, headed]
    simp only [parse, stored]
    by_cases header : ∃ line ∈ lines, isHeader line
    · have returned := (parseLines_spec parseDouble lines header).2
      rw [if_pos (List.any_eq_true.mpr header)]
      rcases parsed : parseLines parseDouble (lines.map some) with ⟨printed, result⟩
      rw [parsed] at returned
      obtain rfl : result = .ok [] := returned
      exact ⟨rfl, rfl⟩
    · have headless : ∀ line ∈ lines, ¬ isHeader line := by simpa using header
      have thrown := parseLines_headless parseDouble headless
      rw [if_neg (by simpa using header)]
      rcases parsed : parseLines parseDouble (lines.map some) with ⟨printed, result⟩
      rw [parsed] at thrown
      obtain rfl : result = .error .nullPointer := thrown
      exact ⟨rfl, _, rfl⟩

/-- One pass of the file loop writes nothing. -/
theorem convertFile_cases (s : Converting D) (file : File) (i : Nat) :
    (convertFile parseDouble doubleText s file i).1.disk = s.disk ∧
      (convertFile parseDouble doubleText s file i).1.dumps =
        s.dumps ++ (if file.isTxt then dumpsOf parseDouble s.disk file else []) ∧
      ((convertFile parseDouble doubleText s file i).2 = none ↔ (file.isTxt → parses s.disk file)) := by
  by_cases txt : file.isTxt
  · obtain ⟨dumped, result⟩ := parse_cases parseDouble s.disk file
    rcases parsed : parse parseDouble s.disk file with ⟨printed, returned⟩
    rw [parsed] at dumped result
    rw [convertFile, if_pos txt, if_pos txt, parsed]
    split at result
    · rename_i there
      obtain rfl : returned = .ok [] := result
      refine ⟨rfl, ?_, by simp [there]⟩
      rw [Converting.dumps, List.filterMap_append, dumped]
      rfl
    · rename_i missing
      obtain ⟨thrown, is_error⟩ := result
      obtain rfl : returned = .error thrown := is_error
      refine ⟨rfl, ?_, by simp [missing, txt]⟩
      rw [Converting.dumps, List.filterMap_append, dumped]
      rfl
  · simp [convertFile, txt]

/-- The text files in front of the first that is not parsed. -/
def parsedFirst (disk : Disk) (f : List File) : List File := (f.filter File.isTxt).takeWhile (parses disk)

theorem convertFiles_cases (s : Converting D) (entries : List (File × Nat)) :
    (convertFiles parseDouble doubleText s entries).1.disk = s.disk ∧
      (convertFiles parseDouble doubleText s entries).1.dumps =
        s.dumps ++ (parsedFirst s.disk (entries.map Prod.fst)).flatMap (dumpsOf parseDouble s.disk) ∧
      ((convertFiles parseDouble doubleText s entries).2 = none ↔
        ∀ file ∈ entries.map Prod.fst, file.isTxt → parses s.disk file) := by
  induction entries generalizing s with
  | nil => simp [convertFiles, parsedFirst]
  | cons entry rest ih =>
    obtain ⟨file, i⟩ := entry
    obtain ⟨disk, dumps, passes⟩ := convertFile_cases parseDouble doubleText s file i
    rcases converted : convertFile parseDouble doubleText s file i with ⟨next, _ | thrown⟩
    · rw [converted] at disk dumps passes
      obtain ⟨disk_rest, dumps_rest, passes_rest⟩ := ih next
      have good := passes.mp rfl
      simp only [convertFiles, converted]
      simp only at disk dumps
      rw [disk] at disk_rest dumps_rest passes_rest
      refine ⟨disk_rest, ?_, ?_⟩
      · rw [dumps_rest, dumps, List.append_assoc]
        congr 1
        by_cases txt : file.isTxt
        · simp [parsedFirst, txt, good txt]
        · simp [parsedFirst, txt]
      · rw [passes_rest, List.map_cons, List.forall_mem_cons]
        exact ⟨fun later => ⟨good, later⟩, And.right⟩
    · rw [converted] at disk dumps passes
      have bad : ¬ (file.isTxt → parses s.disk file) := fun good => by cases passes.mpr good
      obtain ⟨txt, missing⟩ := Classical.not_imp.mp bad
      have stops : convertFiles parseDouble doubleText s ((file, i) :: rest) = (next, some thrown) := by
        rw [convertFiles, converted]
      have no_dumps := dumpsOf_of_not_parses parseDouble (by simpa using missing)
      rw [stops]
      refine ⟨disk, ?_, ?_, ?_⟩
      · rw [dumps, if_pos txt, no_dumps]
        simp [parsedFirst, txt, missing]
      · intro done
        cases done
      · intro all
        exact absurd (all file (by simp)) bad

/-- The file loop of `main`. -/
theorem convert_cases (f : List File) (disk : Disk) :
    (convert parseDouble doubleText f disk).1.disk = disk ∧
      (convert parseDouble doubleText f disk).1.dumps =
        (parsedFirst disk f).flatMap (dumpsOf parseDouble disk) ∧
      ((convert parseDouble doubleText f disk).2 = none ↔ ∀ file ∈ f, file.isTxt → parses disk file) := by
  have files := convertFiles_cases parseDouble doubleText { disk, printed := [] } f.zipIdx
  rw [List.zipIdx_map_fst] at files
  exact files

/-- All text files are parsed, and then the sample. -/
theorem runMain_parsed {f : List File} {disk : Disk} (sample : File)
    (all : ∀ file ∈ f, file.isTxt → parses disk file) :
    (runMain parseDouble doubleText f sample disk).1.disk = disk ∧
      ((runMain parseDouble doubleText f sample disk).2 = none ↔ parses disk sample) ∧
      (runMain parseDouble doubleText f sample disk).1.dumps =
        (parsedFirst disk f).flatMap (dumpsOf parseDouble disk) ++ dumpsOf parseDouble disk sample := by
  obtain ⟨same, dumps, passes⟩ := convert_cases parseDouble doubleText f disk
  unfold runMain
  rcases converted : convert parseDouble doubleText f disk with ⟨s, thrown⟩
  rw [converted] at same dumps passes
  simp only at same dumps
  obtain rfl : thrown = none := passes.mpr all
  obtain ⟨dumped, result⟩ := parse_cases parseDouble disk sample
  dsimp only
  rw [same]
  rcases parsed : parse parseDouble disk sample with ⟨printed, returned⟩
  rw [parsed] at dumped result
  have both : ({ s with printed := s.printed ++ printed } : Converting D).dumps =
      s.dumps ++ dumpsOf parseDouble disk sample := by
    rw [Converting.dumps, List.filterMap_append, dumped]
    rfl
  rw [dumps] at both
  split at result
  · rename_i there
    obtain rfl : returned = .ok [] := result
    exact ⟨rfl, by simp [there], both⟩
  · rename_i missing
    obtain ⟨thrown, is_error⟩ := result
    obtain rfl : returned = .error thrown := is_error
    exact ⟨rfl, by simp [missing], both⟩

/-- A text file that is not parsed ends `main`. -/
theorem runMain_not_parsed {f : List File} {disk : Disk} (sample : File)
    (bad : ¬ ∀ file ∈ f, file.isTxt → parses disk file) :
    runMain parseDouble doubleText f sample disk = convert parseDouble doubleText f disk := by
  obtain ⟨-, -, passes⟩ := convert_cases parseDouble doubleText f disk
  unfold runMain
  rcases converted : convert parseDouble doubleText f disk with ⟨s, _ | thrown⟩
  · rw [converted] at passes
    exact absurd (passes.mp rfl) bad
  · rfl

/-- What a run of `main` does with any files: it writes none, not even a CSV; it
dumps the histograms of the text files in front of the first that is missing or
has no header, which ends it, and then those of the sample. -/
theorem main_prints (f : List File) (sample : File) (disk : Disk) :
    (runMain parseDouble doubleText f sample disk).1.disk = disk ∧
      ((runMain parseDouble doubleText f sample disk).2 = none ↔
        (∀ file ∈ f, file.isTxt → parses disk file) ∧ parses disk sample) ∧
      (runMain parseDouble doubleText f sample disk).1.dumps =
        (parsedFirst disk f).flatMap (dumpsOf parseDouble disk) ++
          if ∀ file ∈ f, file.isTxt → parses disk file then dumpsOf parseDouble disk sample else [] := by
  by_cases all : ∀ file ∈ f, file.isTxt → parses disk file
  · obtain ⟨same, ends, dumps⟩ := runMain_parsed parseDouble doubleText sample all
    rw [if_pos all]
    exact ⟨same, ends.trans ⟨fun parsed => ⟨all, parsed⟩, And.right⟩, dumps⟩
  · obtain ⟨same, dumps, passes⟩ := convert_cases parseDouble doubleText f disk
    rw [runMain_not_parsed parseDouble doubleText sample all, if_neg all, List.append_nil]
    refine ⟨same, ?_, dumps⟩
    constructor
    · intro done
      exact absurd (passes.mp done) all
    · exact fun parsed => absurd parsed.1 all

end

/-- A file on the disk that was written as a listing. -/
structure Holds {D : Type} {parseDouble : JString → Option D} (bytes : Bytes) (file : File)
    (listing : Listing parseDouble) : Prop where
  some_block : listing.blocks ≠ []
  latin : ∀ line ∈ listing.lines, Latin line
  written : ∃ content, bytes file.path = some content ∧ Written listing.lines content

theorem Holds.dumpsOf {D : Type} [JDouble D] {parseDouble : JString → Option D} {bytes : Bytes} {file : File}
    {listing : Listing parseDouble} (holds : Holds bytes file listing) :
    parses bytes.disk file = true ∧
      (dumpsOf parseDouble bytes.disk file).map pairs = listing.blocks.map Block.rows := by
  obtain ⟨some_block, latin, content, stored, written⟩ := holds
  have lines := readFile_of_written latin written
  have on_disk : bytes.disk file.path = some listing.lines := by
    rw [Bytes.disk, stored, Option.map_some, lines]
  constructor
  · simp only [parses, on_disk]
    exact List.any_eq_true.mpr (exists_header some_block)
  · rw [ParseHistogram.dumpsOf, linesOf, on_disk, Option.getD_some]
    exact dumpTrace_lines some_block

/-- From the bytes of the files to the dumps: on a directory whose text files were
written as listings, with any blanks and any line ends, `main` ends normally,
leaves the disk as it was and dumps all their histograms, file by file and in
order, with the values and counts that were printed into them. -/
theorem main_prints_listings {D : Type} [JDouble D] {parseDouble : JString → Option D}
    (doubleText : D → JString) (f : List File) (sample : File) (bytes : Bytes)
    (listingOf : File → Listing parseDouble)
    (held : ∀ file ∈ f, file.isTxt → Holds bytes file (listingOf file))
    (heldSample : Holds bytes sample (listingOf sample)) :
    (runMain parseDouble doubleText f sample bytes.disk).2 = none ∧
      (runMain parseDouble doubleText f sample bytes.disk).1.disk = bytes.disk ∧
      (runMain parseDouble doubleText f sample bytes.disk).1.dumps.map pairs =
        (f.filter File.isTxt ++ [sample]).flatMap fun file => (listingOf file).blocks.map Block.rows := by
  have all : ∀ file ∈ f, file.isTxt → parses bytes.disk file :=
    fun file member txt => (held file member txt).dumpsOf.1
  obtain ⟨same, ends, dumps⟩ := runMain_parsed parseDouble doubleText sample all
  have whole : parsedFirst bytes.disk f = f.filter File.isTxt := by
    apply List.takeWhile_eq_self_iff.mpr
    intro file member
    obtain ⟨is_file, txt⟩ := List.mem_filter.mp member
    exact all file is_file txt
  refine ⟨ends.mpr heldSample.dumpsOf.1, same, ?_⟩
  rw [dumps, whole, List.map_append, heldSample.dumpsOf.2, List.flatMap_append,
    List.flatMap_singleton, List.map_flatMap]
  congr 1
  apply List.flatMap_congr
  intro file member
  obtain ⟨is_file, txt⟩ := List.mem_filter.mp member
  exact (held file is_file txt).dumpsOf.2

def sampleRow : DataRow sampleDouble where
  indent := literal "  "
  valueText := literal "0.00"
  gap := literal "  "
  percentileText := literal "0.5"
  gap' := literal " "
  totalCount := 5
  tail := literal "  2.00"
  value := .finite 0
  indent_blank := by decide
  value_solid := by decide
  gap_blank := by decide
  gap_nonempty := List.cons_ne_nil _ _
  percentile_solid := by decide
  gap'_blank := by decide
  gap'_nonempty := List.cons_ne_nil _ _
  tail_apart := by
    intro c first
    obtain rfl : 0x20 = c := by simpa [literal] using first
    decide
  parsed := if_pos rfl
  noHeader := by decide
  noComment := by decide

def sampleListing : Listing sampleDouble where
  preamble := []
  blocks := [{
    indent := literal " "
    tail := literal "  Percentile TotalCount"
    indent_blank := by decide
    body := [.blank [] (by decide), .data sampleRow,
      .comment [] (literal "[Max]") (by decide)] }]

/-- With CR LF, LF and CR, and without an end in the last line. -/
def sampleBytes : Bytes := fun path =>
  if path = sampleFile.path then
    some (join 0x0A 0x0D
      [(encode (literal " Value  Percentile TotalCount"), .crlf), ([], .lf),
        (encode (literal "  0.00  0.5 5  2.00"), .cr)] (encode (literal "#[Max]")))
  else none

theorem main_prints_listings_sample :
    (runMain sampleDouble sampleText [sampleFile] sampleFile sampleBytes.disk).1.dumps.map pairs =
      [[(.finite 0, 5)], [(.finite 0, 5)]] := by
  have held : Holds sampleBytes sampleFile sampleListing := by
    have latin : sampleListing.lines.all (fun line => decide (Latin line)) = true := by decide +kernel
    refine ⟨by decide, by simpa only [List.all_eq_true, decide_eq_true_eq] using latin, _, if_pos rfl, _, _,
      rfl, ?_, ?_⟩
    · exact ⟨⟩
    · decide +kernel
  exact (main_prints_listings sampleText [sampleFile] sampleFile sampleBytes (fun _ => sampleListing)
    (by simpa using fun _ => held) held).2.2

end StreamingPoc.ParseHistogram
