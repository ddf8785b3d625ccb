import Stepwise.Text.Case.Runs
import Stepwise.Text.Ranges

/-!
Upper and lower case of a text.

A character maps to one or several characters.  Capital sigma at the end of a word becomes the
final form; where a word ends is decided by the nearest neighbours that are not passed over.
-/

namespace Stepwise.Text

/-- The code point that a table of runs moves `c` to, if it has one. -/
def CaseRun.apply? (run : CaseRun) (c : Nat) : Option Nat :=
  if run.first ≤ c && c ≤ run.last && (c - run.first) % run.stride == 0 then
    some (Int.toNat (c + run.offset))
  else none

/-- The mapping of one character by a table of runs and a table of longer forms. -/
def mapCase (runs : List CaseRun) (long : List (Nat × List Nat)) (c : Char) : List Char :=
  match long.lookup c.toNat with
  | some form => form.map Char.ofNat
  | none => [(runs.findSome? fun run => run.apply? c.toNat).elim c Char.ofNat]

def upperOf (c : Char) : List Char := mapCase upperRuns longUpper c

def lowerOf (c : Char) : List Char := mapCase lowerRuns longLower c

def casedNeighbour (text : List Char) : Bool :=
  match text.dropWhile (inRanges caseIgnorableRanges) with
  | [] => false
  | c :: _ => inRanges casedRanges c

def upper (text : List Char) : List Char := text.flatMap upperOf

/-- The lower-case form of a text whose preceding characters, last one first, are `before`. -/
def lowerAfter (before : List Char) : List Char → List Char
  | [] => []
  | c :: rest =>
      (if c == 'Σ' then
        if casedNeighbour before && !casedNeighbour rest then ['ς'] else ['σ']
      else lowerOf c) ++ lowerAfter (c :: before) rest

/-- The lower-case form of a text. -/
def lower (text : List Char) : List Char := lowerAfter [] text

end Stepwise.Text
