import Stepwise.Number.Reading
import Stepwise.Record.Snapshot
import Stepwise.Text.Blank

/-!
The settings of a tracer and the variables that they are read from.
-/

namespace Stepwise.Record

/-- The settings of a tracer. -/
structure Settings where
  /-- How many script functions may run inside each other. -/
  callLimit : Nat
  /-- How deep containers are copied. -/
  snapshotDepth : Nat
  deriving Repr, DecidableEq

namespace Settings

/-- The settings unless others are asked for. -/
def standard : Settings := ⟨100, standardDepth⟩

/-- The variable with the number of functions that may run inside each other. -/
def callLimitVariable : String := "STEPTRACE_MAX_CALL_DEPTH"

def snapshotDepthVariable : String := "STEPTRACE_SNAPSHOT_DEPTH"

/-- A size in decimal digits, possibly after a plus sign, of at most 64 bits. -/
def size? (text : List Char) : Option Nat :=
  let digits := match text with
    | '+' :: rest => rest
    | rest => rest
  if digits.isEmpty then none
  else (Number.natural? 10 digits).filter fun size => size < 18446744073709551616

/-- The size that a variable asks for; zero and what is no size are ignored. -/
def requested? (lookup : String → Option String) (name : String) : Option Nat :=
  (lookup name).bind fun text => (size? (Text.trim text.toList)).filter (0 < ·)

def ofLookup (lookup : String → Option String) : Settings :=
  ⟨(requested? lookup callLimitVariable).getD standard.callLimit,
    (requested? lookup snapshotDepthVariable).getD standard.snapshotDepth⟩

end Settings

end Stepwise.Record
