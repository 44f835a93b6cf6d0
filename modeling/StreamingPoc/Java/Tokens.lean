import StreamingPoc.Java.Text

/-!
# Tokens between blanks

What `trim` and `split("\\s+")` make of a text that was written as tokens with
blanks between them, in front and behind, and `parseInt` of the text of an int.
-/
namespace StreamingPoc.Java

/-- A token: not empty, and no space or control character in it. -/
def Solid (token : JString) : Prop := token ≠ [] ∧ ∀ c ∈ token, isControlOrSpace c = false

/-- Spaces and tabs. -/
def Blank (gap : JString) : Prop := ∀ c ∈ gap, c = 0x20 ∨ c = 0x09

instance (gap : JString) : Decidable (Blank gap) := List.decidableBAll _ gap

instance (token : JString) : Decidable (Solid token) :=
  have := List.decidableBAll (fun c => isControlOrSpace c = false) token
  inferInstanceAs (Decidable (_ ∧ _))

/-- The nonempty pieces between white space. -/
def words (s : JString) : List JString := (s.splitOnP isRegexSpace).filter (· ≠ [])

theorem Blank.isRegexSpace {gap : JString} (blank : Blank gap) : ∀ c ∈ gap, isRegexSpace c = true := by
  intro c member
  rcases blank c member with rfl | rfl <;> decide

theorem Blank.isControlOrSpace {gap : JString} (blank : Blank gap) :
    ∀ c ∈ gap, isControlOrSpace c = true := by
  intro c member
  rcases blank c member with rfl | rfl <;> decide

/-- White space is below the printable characters. -/
theorem isControlOrSpace_of_isRegexSpace {c : UInt16} (space : isRegexSpace c = true) :
    isControlOrSpace c = true := by
  have listed : c ∈ ([0x20, 0x09, 0x0A, 0x0B, 0x0C, 0x0D] : List UInt16) := by
    simpa [isRegexSpace] using space
  simp only [List.mem_cons, List.not_mem_nil, or_false] at listed
  rcases listed with rfl | rfl | rfl | rfl | rfl | rfl <;> decide

theorem Solid.isRegexSpace {token : JString} (solid : Solid token) :
    ∀ c ∈ token, isRegexSpace c = false := by
  intro c member
  have printable := solid.2 c member
  cases space : Java.isRegexSpace c with
  | false => rfl
  | true =>
    rw [isControlOrSpace_of_isRegexSpace space] at printable
    cases printable

/-! ### Splitting -/

@[simp] theorem words_nil : words [] = [] := by simp [words]

/-- A text is cut at each white space. -/
theorem words_append_space (x y : JString) {c : UInt16} (space : isRegexSpace c = true) :
    words (x ++ c :: y) = words x ++ words y := by
  rw [words, List.splitOnP_append_cons x y space, List.filter_append]
  rfl

theorem words_blank {gap : JString} (blank : Blank gap) (y : JString) : words (gap ++ y) = words y := by
  induction gap with
  | nil => rfl
  | cons c gap ih =>
    have first := words_append_space [] (gap ++ y) (blank.isRegexSpace c List.mem_cons_self)
    rw [List.nil_append, words_nil, List.nil_append] at first
    rw [List.cons_append, first]
    exact ih fun d member => blank d (List.mem_cons_of_mem c member)

theorem words_solid {token : JString} (solid : Solid token) : words token = [token] := by
  rw [words, List.splitOnP_eq_singleton solid.isRegexSpace]
  simp [solid.1]

/-- A token, a gap and what comes after. -/
theorem words_token {token gap : JString} (solid : Solid token) (blank : Blank gap) (nonempty : gap ≠ [])
    (y : JString) : words (token ++ gap ++ y) = token :: words y := by
  cases gap with
  | nil => exact absurd rfl nonempty
  | cons c gap =>
    have cut := words_append_space token (gap ++ y) (blank.isRegexSpace c List.mem_cons_self)
    rw [List.append_assoc, List.cons_append, cut, words_solid solid]
    rw [words_blank (fun d member => blank d (List.mem_cons_of_mem c member)) y]
    rfl

/-- A text that does not begin with white space is split into its words. -/
theorem splitSpaces_eq_words {c : UInt16} {s : JString} (printable : isRegexSpace c = false) :
    splitSpaces (c :: s) = words (c :: s) := by
  unfold splitSpaces words
  split
  · rename_i spaced
    rw [List.splitOnP_cons_eq_if_modifyHead, printable]
    cases split_s : s.splitOnP isRegexSpace with
    | nil => exact absurd split_s (List.splitOnP_ne_nil _ s)
    | cons first rest => simp
  · rename_i unspaced
    rw [List.splitOnP_eq_singleton]
    · simp
    · intro d member
      simp only [List.any_eq_true, not_exists, not_and, Bool.not_eq_true] at unspaced
      exact unspaced d member

/-! ### Trimming -/

/-- What is cut off at the end does not reach a printable character. -/
theorem rdropWhile_append (body tail : JString) (nonempty : body ≠ [])
    (printable : isControlOrSpace (body.getLast nonempty) = false) :
    (body ++ tail).rdropWhile isControlOrSpace = body ++ tail.rdropWhile isControlOrSpace := by
  induction tail using List.reverseRecOn with
  | nil =>
    rw [List.append_nil, List.rdropWhile_nil, List.append_nil, List.rdropWhile_eq_self_iff]
    intro _
    rw [printable]
    exact Bool.false_ne_true
  | append_singleton tail c ih =>
    rw [← List.append_assoc, List.rdropWhile_concat, List.rdropWhile_concat]
    split
    · exact ih
    · exact List.append_assoc _ _ _

/-- A blank margin goes, and what stands at the end as far as it is no text. -/
theorem trim_layout {indent body : JString} (blank : Blank indent) (tail : JString) (nonempty : body ≠ [])
    (head : isControlOrSpace (body.head nonempty) = false)
    (last : isControlOrSpace (body.getLast nonempty) = false) :
    trim (indent ++ (body ++ tail)) = body ++ tail.rdropWhile isControlOrSpace := by
  have front : (indent ++ (body ++ tail)).dropWhile isControlOrSpace = body ++ tail := by
    rw [List.dropWhile_append_of_pos blank.isControlOrSpace]
    cases body with
    | nil => exact absurd rfl nonempty
    | cons c body =>
      rw [List.cons_append, List.dropWhile_cons_of_neg]
      rw [List.head_cons] at head
      simp [head]
  rw [trim, front, rdropWhile_append body tail nonempty last]

theorem trim_blank {gap : JString} (blank : Blank gap) : trim gap = [] := by
  have none_left : gap.dropWhile isControlOrSpace = [] :=
    List.dropWhile_eq_nil_iff.mpr blank.isControlOrSpace
  rw [trim, none_left, List.rdropWhile_nil]

theorem Solid.head {token : JString} (solid : Solid token) : isControlOrSpace (token.head solid.1) = false :=
  solid.2 _ (List.head_mem solid.1)

theorem Solid.last {token : JString} (solid : Solid token) :
    isControlOrSpace (token.getLast solid.1) = false :=
  solid.2 _ (List.getLast_mem solid.1)

theorem trim_solid {token : JString} (solid : Solid token) : trim token = token := by
  have no_indent : Blank [] := by decide
  have trimmed := trim_layout no_indent [] solid.1 solid.head solid.last
  simpa using trimmed

/-! ### The text of an int -/

theorem mem_decimalText {n : Nat} {c : UInt16} (member : c ∈ decimalText n) : ∃ d < 10, c = digitUnit d := by
  unfold decimalText at member
  split at member
  · exact ⟨0, by decide, List.mem_singleton.mp member⟩
  · obtain ⟨d, is_digit, rfl⟩ := List.mem_map.mp member
    exact ⟨d, Nat.digits_lt_base (by decide) (List.mem_reverse.mp is_digit), rfl⟩

theorem decimalText_ne_nil (n : Nat) : decimalText n ≠ [] := by
  unfold decimalText
  split
  · exact List.cons_ne_nil _ _
  · rename_i nonzero
    simpa [Nat.digits_ne_nil_iff_ne_zero] using nonzero

/-- A digit is printable, and no sign. -/
theorem digitUnit_spec {d : Nat} (small : d < 10) :
    isControlOrSpace (digitUnit d) = false ∧ digitUnit d ≠ 0x2D ∧ digitUnit d ≠ 0x2B ∧ digitUnit d < 256 := by
  have table : ∀ d < 10, isControlOrSpace (digitUnit d) = false ∧ digitUnit d ≠ 0x2D ∧ digitUnit d ≠ 0x2B ∧
      digitUnit d < 256 := by decide
  exact table d small

theorem mem_intText {n : Int32} {c : UInt16} (member : c ∈ intText n) :
    isControlOrSpace c = false ∧ c < 256 := by
  have digits : ∀ c ∈ decimalText n.toInt.natAbs, isControlOrSpace c = false ∧ c < 256 := by
    intro c member
    obtain ⟨d, small, rfl⟩ := mem_decimalText member
    obtain ⟨printable, -, -, latin⟩ := digitUnit_spec small
    exact ⟨printable, latin⟩
  unfold intText at member
  split at member
  · rcases List.mem_cons.mp member with rfl | digit
    · decide
    · exact digits c digit
  · exact digits c member

theorem solid_intText (n : Int32) : Solid (intText n) := by
  refine ⟨?_, fun c member => (mem_intText member).1⟩
  unfold intText
  split
  · exact List.cons_ne_nil _ _
  · exact decimalText_ne_nil _

theorem toInt32?_toInt (n : Int32) : toInt32? n.toInt = some n := by
  rw [toInt32?, if_pos ⟨n.le_toInt, n.toInt_lt⟩, Int32.ofInt_toInt]

theorem parseInt_minus (rest : JString) :
    parseInt (0x2D :: rest) = (magnitude rest).bind fun n => toInt32? (-n) := by
  rw [parseInt, if_pos rfl]

theorem parseInt_unsigned {c : UInt16} (noMinus : c ≠ 0x2D) (noPlus : c ≠ 0x2B) (rest : JString) :
    parseInt (c :: rest) = (magnitude (c :: rest)).bind fun n => toInt32? n := by
  rw [parseInt, if_neg noMinus, if_neg noPlus]

/-- `parseInt` reads back what the concatenation wrote. -/
theorem parseInt_intText (n : Int32) : parseInt (intText n) = some n := by
  unfold intText
  split
  · rename_i negative
    have value : -(n.toInt.natAbs : Int) = n.toInt := by omega
    rw [parseInt_minus, magnitude_decimalText, Option.bind_some, value, toInt32?_toInt]
  · rename_i nonneg
    have value : (n.toInt.natAbs : Int) = n.toInt := by omega
    have parsed := magnitude_decimalText n.toInt.natAbs
    cases text : decimalText n.toInt.natAbs with
    | nil => exact absurd text (decimalText_ne_nil _)
    | cons c rest =>
      have member : c ∈ decimalText n.toInt.natAbs := by
        rw [text]
        exact List.mem_cons_self
      obtain ⟨d, small, rfl⟩ := mem_decimalText member
      obtain ⟨-, noMinus, noPlus, -⟩ := digitUnit_spec small
      rw [text] at parsed
      rw [parseInt_unsigned noMinus noPlus, parsed, Option.bind_some, value, toInt32?_toInt]

end StreamingPoc.Java
