import StreamingPoc.Java.Text
import StreamingPoc.ParseHistogram.POCHistogram

/-!
# HistoParse.parseLines

`parseLines` with its five outcomes for a line and the exceptions its try block
swallows. `parseDouble` is a parameter, `none` is its NumberFormatException. What
goes to System.out is kept as the calls that print: a `dump`, with the histogram
as it is then, and the `println` of the catch block. Stack traces are left out.
-/
namespace StreamingPoc.ParseHistogram

open StreamingPoc.Java

inductive Thrown where
  | nullPointer
  | arrayIndexOutOfBounds
  | numberFormat
  deriving DecidableEq, Repr

inductive Printed (D : Type) where
  | dump (h : POCHistogram D)
  | line (text : JString)
  deriving DecidableEq, Repr

/-- The locals of `parseLines` and what was printed so far. -/
structure Parse (D : Type) where
  res : List (POCHistogram D)
  currHisto : Option (POCHistogram D)
  printed : List (Printed D)
  deriving DecidableEq, Repr

def orThrow {α : Type} (thrown : Thrown) : Option α → Except Thrown α
  | some a => .ok a
  | none => .error thrown

variable {D : Type} [JDouble D] (parseDouble : JString → Option D)

/-- The try block for one line; a list of lines may hold null. A throw comes
before any assignment, so the state at a throw is the state before the line. -/
def tryLine (s : Parse D) (line : Option JString) : Except Thrown (Parse D) := do
  let line := trim (← orThrow .nullPointer line)
  if startsWith line (literal "Value") then
    return { s with
      printed := s.printed ++ (s.currHisto.map .dump).toList
      currHisto := some .new }
  else if startsWith line (literal "#") then return s
  else if line.length = 0 then return s
  else
    let split := splitSpaces line
    let timeText ← orThrow .arrayIndexOutOfBounds split[0]?
    let time ← orThrow .numberFormat (parseDouble (trim timeText))
    let countText ← orThrow .arrayIndexOutOfBounds split[2]?
    let count ← orThrow .numberFormat (parseInt (trim countText))
    let currHisto ← orThrow .nullPointer s.currHisto
    return { s with currHisto := some (currHisto.add time count) }

/-- One pass of the loop. The catch block splits the line once more, which throws
out of `parseLines` when the line is null. -/
def parseLine (s : Parse D) (line : Option JString) : Parse D × Option Thrown :=
  match tryLine parseDouble s line with
  | .ok next => (next, none)
  | .error _ =>
    match line with
    | some text => ({ s with printed := s.printed ++ [.line text] }, none)
    | none => (s, some .nullPointer)

def parseLoop (s : Parse D) : List (Option JString) → Parse D × Option Thrown
  | [] => (s, none)
  | line :: lines =>
    match parseLine parseDouble s line with
    | (next, none) => parseLoop next lines
    | (next, some thrown) => (next, some thrown)

def Parse.initial : Parse D := { res := [], currHisto := none, printed := [] }

/-- What was printed, and the returned list or what escaped. -/
def parseLines (lines : List (Option JString)) :
    List (Printed D) × Except Thrown (List (POCHistogram D)) :=
  match parseLoop parseDouble .initial lines with
  | (s, some thrown) => (s.printed, .error thrown)
  | (s, none) =>
    match s.currHisto with
    | some h => (s.printed ++ [.dump h], .ok s.res)
    | none => (s.printed, .error .nullPointer)

end StreamingPoc.ParseHistogram
