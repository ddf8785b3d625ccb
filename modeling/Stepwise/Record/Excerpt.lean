import Stepwise.Number.Layout
import Stepwise.Script.Tree
import Stepwise.Text.Blank
import Stepwise.Text.Lines

/-!
The source lines of functions.

An excerpt is cut from the source once and kept.  A full collection gives up its oldest excerpt for a
new one.
-/

namespace Stepwise.Record

open Script

/-- The lines of a function, from its header to the last line of its body. -/
structure Excerpt where
  /-- The number of the first of the lines. -/
  firstLine : Nat
  lines : List String
  deriving Repr, DecidableEq

namespace Excerpt

def ofDefinition (source : String) (definition : Definition) : Excerpt :=
  let first := max definition.firstLine 1
  let count := definition.lastLine - first + 1
  ⟨first, (((Text.lines source.toList).drop (first - 1)).take count).map String.ofList⟩

def line? (excerpt : Excerpt) (number : Nat) : Option String :=
  if number < excerpt.firstLine then none
  else (excerpt.lines[number - excerpt.firstLine]?).map fun line =>
    String.ofList (Text.trim line.toList)

end Excerpt

def unknownLine (number : Nat) : String :=
  s!"Line number out of bounds (line: {Number.integerText number})"

/-- The line with a number, trimmed, or what stands for it. -/
def Excerpt.line (excerpt : Excerpt) (number : Nat) : String :=
  (excerpt.line? number).getD (unknownLine number)

/-- A function of a namespace: the numbers of both. -/
structure Place where
  namespaceId : Nat
  functionId : Nat
  deriving Repr, DecidableEq

/-- A bounded collection of excerpts, oldest first. -/
structure Excerpts where
  capacity : Nat
  entries : List (Place × Excerpt)

namespace Excerpts

/-- How many excerpts are kept unless another number is asked for. -/
def standardCapacity : Nat := 256

/-- The empty collection for a number of excerpts, at least one. -/
def ofCapacity (capacity : Nat) : Excerpts := ⟨max capacity 1, []⟩

def size (excerpts : Excerpts) : Nat := excerpts.entries.length

def isEmpty (excerpts : Excerpts) : Bool := excerpts.entries.isEmpty

def find? (excerpts : Excerpts) (place : Place) : Option Excerpt := excerpts.entries.lookup place

/-- The collection with one more excerpt; a full one loses its oldest. -/
def push (excerpts : Excerpts) (place : Place) (excerpt : Excerpt) : Excerpts :=
  let kept :=
    if excerpts.capacity ≤ excerpts.size then excerpts.entries.drop 1 else excerpts.entries
  { excerpts with entries := kept ++ [(place, excerpt)] }

/-- The excerpt of a function of a source, and the collection after asking for it. -/
def lookup (excerpts : Excerpts) (source : String) (functions : List Definition) (place : Place) :
    Option Excerpt × Excerpts :=
  match excerpts.find? place with
  | some found => (some found, excerpts)
  | none =>
      match functions[place.functionId]? with
      | none => (none, excerpts)
      | some definition =>
          let excerpt := Excerpt.ofDefinition source definition
          (some excerpt, excerpts.push place excerpt)

def clear (excerpts : Excerpts) : Excerpts := { excerpts with entries := [] }

end Excerpts

end Stepwise.Record
