import StreamingPoc.Java.Tokens
import StreamingPoc.ParseHistogram.HistoTrace

/-!
# The listings of HdrHistogram

`outputPercentileDistribution` prints a header that begins with "Value", rows of
columns with blanks between them (value, percentile, total count and a rest) and a
footer of '#' lines. A file holds any number of listings. The widths of the blanks
and what stands after the third column are free here.
-/
namespace StreamingPoc.ParseHistogram

open StreamingPoc.Java StreamingPoc.Lib
open POCHistogram (ofAdds pairs pairs_ofAdds)

variable {D : Type} {parseDouble : JString → Option D}

/-- A row by its parts, as they stand in the line. -/
structure DataRow (parseDouble : JString → Option D) where
  indent : JString
  valueText : JString
  gap : JString
  percentileText : JString
  gap' : JString
  totalCount : Int32
  tail : JString
  value : D
  indent_blank : Blank indent
  value_solid : Solid valueText
  gap_blank : Blank gap
  gap_nonempty : gap ≠ []
  percentile_solid : Solid percentileText
  gap'_blank : Blank gap'
  gap'_nonempty : gap' ≠ []
  tail_apart : ∀ c, tail.head? = some c → isRegexSpace c
  parsed : parseDouble valueText = some value
  noHeader : ¬ startsWith valueText (literal "Value")
  noComment : ¬ startsWith valueText (literal "#")

/-- A line after a header. -/
inductive BodyLine (parseDouble : JString → Option D) where
  | data (row : DataRow parseDouble)
  | comment (indent tail : JString) (blank : Blank indent)
  | blank (gap : JString) (blank : Blank gap)

/-- A histogram as it was printed. -/
structure Block (parseDouble : JString → Option D) where
  indent : JString
  tail : JString
  indent_blank : Blank indent
  body : List (BodyLine parseDouble)

/-- Lines in front of the first header belong to no histogram. -/
structure Listing (parseDouble : JString → Option D) where
  preamble : List (BodyLine parseDouble)
  blocks : List (Block parseDouble)

def DataRow.columns (row : DataRow parseDouble) : JString :=
  row.valueText ++ row.gap ++ (row.percentileText ++ row.gap' ++ intText row.totalCount)

def BodyLine.text : BodyLine parseDouble → JString
  | .data row => row.indent ++ (row.columns ++ row.tail)
  | .comment indent tail _ => indent ++ (literal "#" ++ tail)
  | .blank gap _ => gap

def Block.header (block : Block parseDouble) : JString := block.indent ++ (literal "Value" ++ block.tail)

def Block.lines (block : Block parseDouble) : List JString := block.header :: block.body.map BodyLine.text

def Listing.lines (listing : Listing parseDouble) : List JString :=
  listing.preamble.map BodyLine.text ++ listing.blocks.flatMap Block.lines

def BodyLine.row? : BodyLine parseDouble → Option (D × Int32)
  | .data row => some (row.value, row.totalCount)
  | _ => none

/-- The first and the third column of the rows. -/
def Block.rows (block : Block parseDouble) : List (D × Int32) := block.body.filterMap BodyLine.row?

/-! ### One line -/

/-- A word begins a line exactly when it begins the first token. -/
theorem startsWith_token {gap : JString} (blank : Blank gap) (nonempty : gap ≠ []) (y : JString) :
    ∀ token word : JString, (∀ c ∈ word, isRegexSpace c = false) →
      startsWith (token ++ gap ++ y) word = startsWith token word := by
  intro token
  induction token with
  | nil =>
    intro word printable
    cases gap with
    | nil => exact absurd rfl nonempty
    | cons c gap =>
      cases word with
      | nil => rfl
      | cons d word =>
        have other : d ≠ c := by
          rintro rfl
          have space := blank.isRegexSpace d List.mem_cons_self
          rw [printable d List.mem_cons_self] at space
          cases space
        simp [startsWith, List.isPrefixOf, other]
  | cons a token ih =>
    intro word printable
    cases word with
    | nil => rfl
    | cons d word =>
      have rest := ih word fun c member => printable c (List.mem_cons_of_mem d member)
      unfold startsWith at rest ⊢
      simp only [List.cons_append, List.isPrefixOf, rest]

namespace DataRow

variable (row : DataRow parseDouble)

theorem columns_ne_nil : row.columns ≠ [] := by
  simp [columns, row.value_solid.1]

theorem head_columns : isControlOrSpace (row.columns.head row.columns_ne_nil) = false := by
  have first : row.columns.head row.columns_ne_nil = row.valueText.head row.value_solid.1 := by
    simp only [columns, List.append_assoc]
    exact List.head_append_of_ne_nil row.value_solid.1
  rw [first]
  exact row.value_solid.head

theorem getLast_columns : isControlOrSpace (row.columns.getLast row.columns_ne_nil) = false := by
  have solid := solid_intText row.totalCount
  have last : row.columns.getLast row.columns_ne_nil = (intText row.totalCount).getLast solid.1 := by
    simp only [columns, ← List.append_assoc]
    exact List.getLast_append_of_ne_nil _ solid.1
  rw [last]
  exact solid.last

/-- What is left of the tail after `trim` still stands apart. -/
theorem words_tail :
    words (intText row.totalCount ++ row.tail.rdropWhile isControlOrSpace) =
      intText row.totalCount :: words (row.tail.rdropWhile isControlOrSpace) := by
  have solid := solid_intText row.totalCount
  cases trimmed : row.tail.rdropWhile isControlOrSpace with
  | nil =>
    rw [List.append_nil, words_solid solid, words_nil]
  | cons c rest =>
    have space : isRegexSpace c = true := by
      obtain ⟨more, whole⟩ := List.rdropWhile_prefix isControlOrSpace (l := row.tail)
      rw [trimmed] at whole
      exact row.tail_apart c (by rw [← whole]; rfl)
    have front := words_append_space [] rest space
    rw [List.nil_append, words_nil, List.nil_append] at front
    rw [words_append_space _ rest space, words_solid solid, front]
    rfl

/-- The tokens of a row are its columns, and what the tail holds. -/
theorem splitSpaces_columns :
    splitSpaces (row.columns ++ row.tail.rdropWhile isControlOrSpace) =
      row.valueText :: row.percentileText :: intText row.totalCount ::
        words (row.tail.rdropWhile isControlOrSpace) := by
  have layout : row.columns ++ row.tail.rdropWhile isControlOrSpace =
      row.valueText ++ row.gap ++ (row.percentileText ++ row.gap' ++
        (intText row.totalCount ++ row.tail.rdropWhile isControlOrSpace)) := by
    simp [columns]
  have split : splitSpaces (row.columns ++ row.tail.rdropWhile isControlOrSpace) =
      words (row.columns ++ row.tail.rdropWhile isControlOrSpace) := by
    rw [layout]
    cases first : row.valueText with
    | nil => exact absurd first row.value_solid.1
    | cons c rest => exact splitSpaces_eq_words (row.value_solid.isRegexSpace c (by simp [first]))
  rw [split, layout, words_token row.value_solid row.gap_blank row.gap_nonempty,
    words_token row.percentile_solid row.gap'_blank row.gap'_nonempty, row.words_tail]

end DataRow

theorem trim_row (row : DataRow parseDouble) :
    trim (BodyLine.data row).text = row.columns ++ row.tail.rdropWhile isControlOrSpace :=
  trim_layout row.indent_blank row.tail row.columns_ne_nil row.head_columns row.getLast_columns

theorem startsWith_row (row : DataRow parseDouble) {word : JString} (solid : Solid word) :
    startsWith (trim (BodyLine.data row).text) word = startsWith row.valueText word := by
  have layout : row.columns ++ row.tail.rdropWhile isControlOrSpace =
      row.valueText ++ row.gap ++ (row.percentileText ++ row.gap' ++
        (intText row.totalCount ++ row.tail.rdropWhile isControlOrSpace)) := by
    simp [DataRow.columns]
  rw [trim_row, layout]
  exact startsWith_token row.gap_blank row.gap_nonempty _ row.valueText word solid.isRegexSpace

theorem solid_value : Solid (literal "Value") := by decide

theorem solid_hash : Solid (literal "#") := by decide

theorem classify_row (row : DataRow parseDouble) :
    classify parseDouble (BodyLine.data row).text = .item (row.value, row.totalCount) := by
  have notHeader : isHeader (BodyLine.data row).text = false := by
    rw [isHeader, startsWith_row row solid_value]
    simpa using row.noHeader
  have notComment : startsWith (trim (BodyLine.data row).text) (literal "#") = false := by
    rw [startsWith_row row solid_hash]
    simpa using row.noComment
  have notBlank : trim (BodyLine.data row).text ≠ [] := by
    rw [trim_row]
    simp [row.columns_ne_nil]
  have values : wellFormed parseDouble (BodyLine.data row).text = some (row.value, row.totalCount) := by
    unfold wellFormed
    rw [if_neg (by simp [notHeader, notComment, notBlank]), trim_row, row.splitSpaces_columns]
    simp [trim_solid row.value_solid, trim_solid (solid_intText row.totalCount), row.parsed, parseInt_intText]
  rw [classify, if_neg (by simp [notHeader]), values]

/-- A line that begins with a printable word is trimmed up to the word. -/
theorem startsWith_trim {indent word : JString} (blank : Blank indent) (tail : JString) (solid : Solid word) :
    ∃ rest, trim (indent ++ (word ++ tail)) = word ++ rest :=
  ⟨_, trim_layout blank tail solid.1 solid.head solid.last⟩

theorem classify_header_line (block : Block parseDouble) : classify parseDouble block.header = .head := by
  obtain ⟨rest, trimmed⟩ := startsWith_trim block.indent_blank block.tail solid_value
  rw [classify_header, Block.header, isHeader, trimmed]
  exact List.isPrefixOf_iff_prefix.mpr (List.prefix_append _ _)

theorem classify_comment {indent : JString} (tail : JString) (blank : Blank indent) :
    classify parseDouble (BodyLine.comment indent tail blank : BodyLine parseDouble).text = .junk := by
  obtain ⟨rest, trimmed⟩ := startsWith_trim blank tail solid_hash
  have notHeader : isHeader (indent ++ (literal "#" ++ tail)) = false := by
    rw [isHeader, trimmed]
    rfl
  have comment : startsWith (trim (indent ++ (literal "#" ++ tail))) (literal "#") = true := by
    rw [trimmed]
    exact List.isPrefixOf_iff_prefix.mpr (List.prefix_append _ _)
  simp [BodyLine.text, classify, wellFormed, notHeader, comment]

theorem classify_blank {gap : JString} (blank : Blank gap) :
    classify parseDouble (BodyLine.blank gap blank : BodyLine parseDouble).text = .junk := by
  have empty := trim_blank blank
  have notHeader : isHeader gap = false := by
    rw [isHeader, empty]
    rfl
  simp [BodyLine.text, classify, wellFormed, notHeader, empty]

/-! ### All lines -/

def BodyLine.mark : BodyLine parseDouble → Mark (D × Int32)
  | .data row => .item (row.value, row.totalCount)
  | .comment _ _ _ => .junk
  | .blank _ _ => .junk

theorem classify_text (line : BodyLine parseDouble) : classify parseDouble line.text = line.mark := by
  cases line with
  | data row => exact classify_row row
  | comment indent tail blank => exact classify_comment tail blank
  | blank gap blank => exact classify_blank blank

theorem classify_texts (lines : List (BodyLine parseDouble)) :
    (lines.map BodyLine.text).map (classify parseDouble) = lines.map BodyLine.mark := by
  rw [List.map_map]
  exact List.map_congr_left fun line _ => classify_text line

theorem headless_marks (lines : List (BodyLine parseDouble)) : .head ∉ lines.map BodyLine.mark := by
  intro member
  obtain ⟨line, -, head⟩ := List.mem_map.mp member
  cases line <;> simp [BodyLine.mark] at head

theorem items_marks (lines : List (BodyLine parseDouble)) :
    Mark.items (lines.map BodyLine.mark) = lines.filterMap BodyLine.row? := by
  have each : Mark.item? ∘ BodyLine.mark = (BodyLine.row? : BodyLine parseDouble → _) := by
    funext line
    cases line <;> rfl
  rw [Mark.items, List.filterMap_map, each]

/-- The sections of a listing are the rows of its histograms. -/
theorem sections_lines (listing : Listing parseDouble) :
    sections (listing.lines.map (classify parseDouble)) = listing.blocks.map Block.rows := by
  have blocks : (listing.blocks.flatMap Block.lines).map (classify parseDouble) =
      (listing.blocks.map fun block => block.body.map BodyLine.mark).flatMap fun block => .head :: block := by
    rw [List.map_flatMap, List.flatMap_map]
    congr 1
    funext block
    rw [Block.lines, List.map_cons, classify_header_line, classify_texts]
  have headless : ∀ block ∈ listing.blocks.map fun block => block.body.map BodyLine.mark, .head ∉ block := by
    intro block member
    obtain ⟨source, -, rfl⟩ := List.mem_map.mp member
    exact headless_marks source.body
  rw [Listing.lines, List.map_append, classify_texts, blocks,
    sections_append_headless _ _ (headless_marks listing.preamble), sections_flatMap _ headless, List.map_map]
  exact List.map_congr_left fun block _ => items_marks block.body

theorem exists_header {listing : Listing parseDouble} (some_block : listing.blocks ≠ []) :
    ∃ line ∈ listing.lines, isHeader line := by
  obtain ⟨block, blocks, split⟩ := List.exists_cons_of_ne_nil some_block
  refine ⟨block.header, ?_, (classify_header parseDouble _).mp (classify_header_line block)⟩
  simp [Listing.lines, split, Block.lines]

/-- `parseLines` dumps the histograms of a listing as they were printed. -/
theorem dumpTrace_lines [JDouble D] {listing : Listing parseDouble} (some_block : listing.blocks ≠ []) :
    (dumpTrace parseDouble listing.lines).map pairs = listing.blocks.map Block.rows := by
  rw [(parseLines_spec parseDouble listing.lines (exists_header some_block)).1, List.map_map, sections_lines]
  exact List.map_id'' pairs_ofAdds _

end StreamingPoc.ParseHistogram
