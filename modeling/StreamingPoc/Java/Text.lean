import Mathlib.Data.List.DropRight
import Mathlib.Data.Nat.Digits.Lemmas

/-!
# Java strings

A string is the list of its UTF-16 code units. The methods are the ones the code
calls: `trim`, `startsWith`, `endsWith`, `substring`, `split("\\s+")`,
`Integer.parseInt` and the text of an int in a concatenation. A
`NumberFormatException` is `none`.
-/
namespace StreamingPoc.Java

abbrev JString := List UInt16

/-- The code units of a literal of the source; all literals are ASCII. -/
def literal (text : String) : JString := text.toList.map fun c => c.toNat.toUInt16

def startsWith (s start : JString) : Bool := start.isPrefixOf s

def endsWith (s tail : JString) : Bool := tail.isSuffixOf s

/-- `s.substring(begin)` for `begin <= s.length()`. -/
def substring (s : JString) (begin : Nat) : JString := s.drop begin

def isControlOrSpace (c : UInt16) : Bool := c ≤ 0x20

def trim (s : JString) : JString := (s.dropWhile isControlOrSpace).rdropWhile isControlOrSpace

/-- The class `\s` of `java.util.regex`. -/
def isRegexSpace (c : UInt16) : Bool := c ∈ ([0x20, 0x09, 0x0A, 0x0B, 0x0C, 0x0D] : List UInt16)

/-- `s.split("\\s+")`. A run of spaces splits once, so no piece after the first
is empty; a run at the front leaves an empty first piece. Trailing empty pieces
are removed, unless nothing was split at all. -/
def splitSpaces (s : JString) : List JString :=
  if s.any isRegexSpace then
    match s.splitOnP isRegexSpace with
    | [] => []
    | first :: rest =>
      let pieces := first :: rest.filter (· ≠ [])
      if pieces = [[]] then [] else pieces
  else [s]

/-- The zeros of the decimal digit blocks of the basic plane (Unicode 6.2, as in
Java 8). -/
def decimalZeros : List UInt16 :=
  [0x0030, 0x0660, 0x06F0, 0x07C0, 0x0966, 0x09E6, 0x0A66, 0x0AE6, 0x0B66, 0x0BE6, 0x0C66,
    0x0CE6, 0x0D66, 0x0E50, 0x0ED0, 0x0F20, 0x1040, 0x1090, 0x17E0, 0x1810, 0x1946, 0x19D0,
    0x1A80, 0x1A90, 0x1B50, 0x1BB0, 0x1C40, 0x1C50, 0xA620, 0xA8D0, 0xA900, 0xA9D0, 0xAA50,
    0xABF0, 0xFF10]

/-- `Character.digit(c, 10)`. -/
def digit (c : UInt16) : Option Nat :=
  (decimalZeros.find? fun zero => decide (zero ≤ c ∧ c ≤ zero + 9)).map fun zero =>
    (c - zero).toNat

/-- The value of a nonempty string of decimal digits. -/
def magnitude (s : JString) : Option Nat :=
  if s = [] then none
  else s.foldlM (fun value c => (digit c).map (10 * value + ·)) 0

def toInt32? (n : Int) : Option Int32 :=
  if -2 ^ 31 ≤ n ∧ n < 2 ^ 31 then some (Int32.ofInt n) else none

/-- `Integer.parseInt`. -/
def parseInt : JString → Option Int32
  | [] => none
  | c :: rest =>
    if c = 0x2D then (magnitude rest).bind fun n => toInt32? (-n)
    else if c = 0x2B then (magnitude rest).bind fun n => toInt32? n
    else (magnitude (c :: rest)).bind fun n => toInt32? n

def digitUnit (d : Nat) : UInt16 := 0x30 + d.toUInt16

/-- The decimal text of a natural number. -/
def decimalText (n : Nat) : JString :=
  if n = 0 then [digitUnit 0] else (Nat.digits 10 n).reverse.map digitUnit

/-- The text of an int. -/
def intText (n : Int32) : JString :=
  if n.toInt < 0 then 0x2D :: decimalText n.toInt.natAbs else decimalText n.toInt.natAbs

theorem digit_digitUnit {d : Nat} (small : d < 10) : digit (digitUnit d) = some d := by
  have table : ∀ d < 10, digit (digitUnit d) = some d := by decide
  exact table d small

theorem foldlM_digits (ds : List Nat) (small : ∀ d ∈ ds, d < 10) :
    (ds.reverse.map digitUnit).foldlM (fun value c => (digit c).map (10 * value + ·)) 0 =
      some (Nat.ofDigits 10 ds) := by
  induction ds with
  | nil => rfl
  | cons d ds ih =>
    have lower := ih fun e member => small e (List.mem_cons_of_mem d member)
    have this_digit := digit_digitUnit (small d List.mem_cons_self)
    simp only [List.reverse_cons, List.map_append, List.map_cons, List.map_nil,
      List.foldlM_append, lower, List.foldlM_cons, List.foldlM_nil, this_digit,
      Nat.ofDigits_cons]
    simp [Nat.add_comm]

theorem magnitude_decimalText (n : Nat) : magnitude (decimalText n) = some n := by
  unfold magnitude decimalText
  by_cases zero : n = 0
  · subst zero
    decide
  · have digits_exist : Nat.digits 10 n ≠ [] := Nat.digits_ne_nil_iff_ne_zero.mpr zero
    have small : ∀ d ∈ Nat.digits 10 n, d < 10 := fun d => Nat.digits_lt_base (by decide)
    have value := foldlM_digits (Nat.digits 10 n) small
    rw [Nat.ofDigits_digits] at value
    simpa [zero, digits_exist] using value

theorem decimalText_injective {m n : Nat} (same : decimalText m = decimalText n) : m = n := by
  have values := congrArg magnitude same
  rwa [magnitude_decimalText, magnitude_decimalText, Option.some.injEq] at values

example : splitSpaces (literal "1.00  0.5 \t 599912") =
    [literal "1.00", literal "0.5", literal "599912"] := by decide

example : parseInt (literal "-2147483648") = some (-2147483648) ∧
    parseInt (literal "2147483648") = none := by decide

end StreamingPoc.Java
