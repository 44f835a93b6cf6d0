import StreamingPoc.Java.Text
import StreamingPoc.Lib.Writes
import StreamingPoc.ParseHistogram.POCHistogram
import Mathlib.Data.List.Enum

/-!
# The CSV files of HistoParse.main

The loops of `main` over the files of one directory, with the parse of a `.txt`
file as a parameter. A disk maps paths to lines and `FileOutputStream` truncates.
The text of a double is a parameter. Paths are Unix paths.
-/
namespace StreamingPoc.ParseHistogram

open StreamingPoc.Java StreamingPoc.Lib

/-- A file as `listFiles` of its parent gives it. -/
structure File where
  parent : JString
  name : JString
  deriving DecidableEq, Repr

def separator : JString := literal "/"

/-- Doubled separators count once. -/
def collapse : JString → JString
  | [] => []
  | [c] => [c]
  | c :: d :: rest => if c = 0x2F ∧ d = 0x2F then collapse (d :: rest) else c :: collapse (d :: rest)

/-- `new File(path).toString()`: no doubled separator and none at the end. -/
def normalize (path : JString) : JString :=
  if 1 < (collapse path).length ∧ endsWith (collapse path) separator then (collapse path).dropLast
  else collapse path

/-- The path of a file; the parent "/" ends in a separator itself. -/
def File.path (file : File) : JString :=
  if file.parent = separator then file.parent ++ file.name
  else file.parent ++ separator ++ file.name

def File.isTxt (file : File) : Bool := endsWith file.name (literal ".txt")

/-- The histogram index `j` of the loop is not part of the name. -/
def newFileName (file : File) (i : Nat) : JString :=
  normalize (file.parent ++ separator ++ substring file.name (file.name.length - 4)) ++
    literal "_" ++ decimalText i ++ literal ".csv"

variable {D : Type} (doubleText : D → JString)

def csvLine (entry : HIEntry D) : JString :=
  doubleText entry.time ++ literal ";" ++ intText entry.count ++ literal ";" ++
    doubleText entry.perc

abbrev Disk := JString → Option (List JString)

variable [JDouble D]

def csvRows (h : POCHistogram D) : List JString := h.fillPercentile.entries.map (csvLine doubleText)

/-- The inner loop of `main`, over the histograms of file `i`. -/
def writeHistograms (file : File) (i : Nat) (histograms : List (POCHistogram D)) (disk : Disk) :
    Disk :=
  histograms.foldl
    (fun disk h => Function.update disk (newFileName file i) (some (csvRows doubleText h))) disk

/-- `main` without the parse of the sample file, whose result it drops. -/
def HistoParse.main (parse : File → List (POCHistogram D)) (f : List File) (disk : Disk) : Disk :=
  f.zipIdx.foldl
    (fun disk entry =>
      if entry.1.isTxt then writeHistograms doubleText entry.1 entry.2 (parse entry.1) disk else disk)
    disk

/-- Histogram `j` of file `i`. -/
structure Parsed (parse : File → List (POCHistogram D)) (f : List File) (i j : Nat) (file : File)
    (h : POCHistogram D) : Prop where
  file_i : f[i]? = some file
  isTxt : file.isTxt
  histogram_j : (parse file)[j]? = some h

/-- No CSV overwrites another file, and each holds the rows of its histogram in
the end. -/
structure NoCsvOverwritten (parse : File → List (POCHistogram D)) (f : List File) (disk : Disk) :
    Prop where
  injective : ∀ {i j file h i' j' file' h'}, Parsed parse f i j file h →
    Parsed parse f i' j' file' h' → newFileName file i = newFileName file' i' → i = i' ∧ j = j'
  noInput : ∀ {i j file h}, Parsed parse f i j file h →
    ∀ input ∈ f, input.isTxt → newFileName file i ≠ input.path
  rows : ∀ {i j file h}, Parsed parse f i j file h →
    HistoParse.main doubleText parse f disk (newFileName file i) = some (csvRows doubleText h)

theorem substring_of_isTxt {file : File} (txt : file.isTxt) :
    substring file.name (file.name.length - 4) = literal ".txt" := by
  obtain ⟨stem, name_eq⟩ := List.isSuffixOf_iff_suffix.mp txt
  rw [substring, ← name_eq, List.length_append]
  exact List.drop_left' (by simp [literal])

/-- Only the index distinguishes the names of one directory. -/
theorem newFileName_of_isTxt {file : File} (txt : file.isTxt) (i : Nat) :
    newFileName file i = normalize (file.parent ++ separator ++ literal ".txt") ++ literal "_" ++
      decimalText i ++ literal ".csv" := by
  rw [newFileName, substring_of_isTxt txt]

theorem newFileName_injective {file file' : File} (sameParent : file.parent = file'.parent)
    (txt : file.isTxt) (txt' : file'.isTxt) {i i' : Nat}
    (same : newFileName file i = newFileName file' i') : i = i' := by
  rw [newFileName_of_isTxt txt, newFileName_of_isTxt txt', sameParent] at same
  exact decimalText_injective (List.append_cancel_left (List.append_cancel_right same))

/-- A CSV name ends in 'v', the path of a text file in 't'. -/
theorem newFileName_ne_path (file : File) (i : Nat) {input : File} (txt : input.isTxt) :
    newFileName file i ≠ input.path := by
  intro same
  obtain ⟨stem, name_eq⟩ := List.isSuffixOf_iff_suffix.mp txt
  have path_last : input.path.getLast? = some 0x74 := by
    unfold File.path
    rw [← name_eq]
    split <;> simp [literal]
  have csv_last : (newFileName file i).getLast? = some 0x76 := by
    simp [newFileName, literal, List.getLast?_append, List.getLast?_cons]
  rw [same, path_last] at csv_last
  cases csv_last

/-- The writes of a run of `main`, in order. -/
def csvWrites (parse : File → List (POCHistogram D)) (f : List File) :
    List (JString × List JString) :=
  f.zipIdx.flatMap fun entry =>
    if entry.1.isTxt then
      (parse entry.1).map fun h => (newFileName entry.1 entry.2, csvRows doubleText h)
    else []

theorem main_eq_writeAll (parse : File → List (POCHistogram D)) (f : List File) (disk : Disk) :
    HistoParse.main doubleText parse f disk = writeAll disk (csvWrites doubleText parse f) := by
  unfold HistoParse.main csvWrites
  induction f.zipIdx generalizing disk with
  | nil => rfl
  | cons entry rest ih =>
    rw [List.foldl_cons, ih, List.flatMap_cons, writeAll_append]
    congr 1
    split
    · simp only [writeHistograms, writeAll, List.foldl_map]
    · rfl

theorem mem_csvWrites (parse : File → List (POCHistogram D)) (f : List File)
    (w : JString × List JString) :
    w ∈ csvWrites doubleText parse f ↔
      ∃ i j file h, Parsed parse f i j file h ∧ w = (newFileName file i, csvRows doubleText h) := by
  unfold csvWrites
  rw [List.mem_flatMap]
  constructor
  · rintro ⟨⟨file, i⟩, entry_mem, w_mem⟩
    split at w_mem
    · rename_i txt
      obtain ⟨h, h_mem, rfl⟩ := List.mem_map.mp w_mem
      obtain ⟨j, histogram_j⟩ := List.mem_iff_getElem?.mp h_mem
      have file_i : f[i]? = some file := List.mem_zipIdx_iff_getElem?.mp entry_mem
      exact ⟨i, j, file, h, ⟨file_i, txt, histogram_j⟩, rfl⟩
    · cases w_mem
  · rintro ⟨i, j, file, h, parsed, rfl⟩
    refine ⟨(file, i), List.mem_zipIdx_iff_getElem?.mpr parsed.file_i, ?_⟩
    rw [if_pos parsed.isTxt]
    exact List.mem_map_of_mem (List.mem_of_getElem? parsed.histogram_j)

/-- `main` leaves every text file as it was. -/
theorem main_keeps_inputs (parse : File → List (POCHistogram D)) (f : List File) (disk : Disk)
    {input : File} (txt : input.isTxt) :
    HistoParse.main doubleText parse f disk input.path = disk input.path := by
  rw [main_eq_writeAll]
  apply writeAll_frame
  intro w w_mem
  obtain ⟨i, j, file, h, -, rfl⟩ := (mem_csvWrites doubleText parse f w).mp w_mem
  exact newFileName_ne_path file i txt

omit [JDouble D] in
/-- With one histogram a file, the file's index in the name tells them all apart. -/
theorem Parsed.indices_of_name {parse : File → List (POCHistogram D)} {f : List File}
    (oneDirectory : ∀ file ∈ f, ∀ file' ∈ f, file.parent = file'.parent)
    (single : ∀ file ∈ f, file.isTxt → (parse file).length ≤ 1)
    {i j i' j' : Nat} {file file' : File} {h h' : POCHistogram D}
    (parsed : Parsed parse f i j file h) (parsed' : Parsed parse f i' j' file' h')
    (same : newFileName file i = newFileName file' i') : i = i' ∧ j = j' := by
  have mem := List.mem_of_getElem? parsed.file_i
  have mem' := List.mem_of_getElem? parsed'.file_i
  have below := (List.getElem?_eq_some_iff.mp parsed.histogram_j).1
  have below' := (List.getElem?_eq_some_iff.mp parsed'.histogram_j).1
  have one := single file mem parsed.isTxt
  have one' := single file' mem' parsed'.isTxt
  refine ⟨newFileName_injective (oneDirectory file mem file' mem') parsed.isTxt parsed'.isTxt
    same, ?_⟩
  omega

theorem Parsed.main_rows {parse : File → List (POCHistogram D)} {f : List File} (disk : Disk)
    (oneDirectory : ∀ file ∈ f, ∀ file' ∈ f, file.parent = file'.parent)
    (single : ∀ file ∈ f, file.isTxt → (parse file).length ≤ 1)
    {i j : Nat} {file : File} {h : POCHistogram D} (parsed : Parsed parse f i j file h) :
    HistoParse.main doubleText parse f disk (newFileName file i) =
      some (csvRows doubleText h) := by
  rw [main_eq_writeAll]
  apply writeAll_of_unique
  · exact (mem_csvWrites doubleText parse f _).mpr ⟨i, j, file, h, parsed, rfl⟩
  · intro w w_mem same_name
    obtain ⟨i', j', file', h', parsed', rfl⟩ := (mem_csvWrites doubleText parse f w).mp w_mem
    obtain ⟨rfl, rfl⟩ := Parsed.indices_of_name oneDirectory single parsed' parsed same_name
    obtain rfl : file' = file := Option.some.inj (parsed'.file_i.symm.trans parsed.file_i)
    rw [Option.some.inj (parsed'.histogram_j.symm.trans parsed.histogram_j)]

/-- The files of one directory do not overwrite each other exactly when no text
file holds two histograms: the name of a CSV has no place for the second index. -/
theorem csv_not_overwritten_iff (parse : File → List (POCHistogram D)) (f : List File)
    (disk : Disk) (oneDirectory : ∀ file ∈ f, ∀ file' ∈ f, file.parent = file'.parent) :
    NoCsvOverwritten doubleText parse f disk ↔
      ∀ file ∈ f, file.isTxt → (parse file).length ≤ 1 := by
  constructor
  · intro noneLost file file_mem txt
    by_contra several
    obtain ⟨i, file_i⟩ := List.mem_iff_getElem?.mp file_mem
    have two : 1 < (parse file).length := Nat.lt_of_not_le several
    have first : Parsed parse f i 0 file _ :=
      ⟨file_i, txt, List.getElem?_eq_getElem (Nat.zero_lt_of_lt two)⟩
    have second : Parsed parse f i 1 file _ := ⟨file_i, txt, List.getElem?_eq_getElem two⟩
    have indices := (noneLost.injective first second rfl).2
    omega
  · intro single
    exact ⟨fun parsed parsed' same => Parsed.indices_of_name oneDirectory single parsed parsed' same,
      fun _ input _ txt => newFileName_ne_path _ _ txt,
      fun parsed => parsed.main_rows doubleText disk oneDirectory single⟩

def sampleFile : File := { parent := literal "/hist", name := literal "a.txt" }

/-- Every double printed alike; the text plays no part in the names. -/
def sampleText (_ : Exact) : JString := literal "0.0"

theorem csv_not_overwritten_one :
    NoCsvOverwritten sampleText (fun _ => [POCHistogram.ofAdds [(.finite 0, 3)]]) [sampleFile]
      fun _ => none := by
  have oneDirectory : ∀ file ∈ [sampleFile], ∀ file' ∈ [sampleFile], file.parent = file'.parent := by
    decide
  exact (csv_not_overwritten_iff sampleText _ _ _ oneDirectory).mpr (by decide)

def twoHistograms (_ : File) : List (POCHistogram Exact) :=
  [.ofAdds [(.finite 0, 3)], .ofAdds [(.finite 1, 4)]]

/-- A file with two histograms: both go to "/hist/.txt_0.csv". -/
theorem csv_overwritten_by_second :
    ¬ ∀ (parse : File → List (POCHistogram Exact)) (f : List File) (disk : Disk),
      (∀ file ∈ f, ∀ file' ∈ f, file.parent = file'.parent) → f.Nodup →
      NoCsvOverwritten sampleText parse f disk := by
  intro claim
  have noneLost := claim twoHistograms [sampleFile] (fun _ => none) (by decide) (by decide)
  have first : Parsed twoHistograms [sampleFile] 0 0 sampleFile _ := ⟨rfl, by decide, rfl⟩
  have second : Parsed twoHistograms [sampleFile] 0 1 sampleFile _ := ⟨rfl, by decide, rfl⟩
  have indices := (noneLost.injective first second rfl).2
  cases indices

end StreamingPoc.ParseHistogram
