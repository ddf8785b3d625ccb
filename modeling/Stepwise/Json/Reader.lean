import Stepwise.Json.Basic
import Stepwise.Json.Form
import Stepwise.Number.Bounded

/-!
What a written form stands for.

An integer of 64 bits is one; every other number is a double.  A double is the significand, cut to
what 64 bits hold, scaled in double arithmetic by powers of ten.  A number beyond the doubles, an
unpaired surrogate and too many levels of nesting are refused.
-/

namespace Stepwise.Json

/-- The greatest significand: digits that would lead beyond it are dropped. -/
def significandLimit : Nat := 18446744073709551615

/-- The significand and the exponent of ten that integer digits add to it. -/
def takeWhole (significand : Nat) (exponent : Int) : List Char → Nat × Int
  | [] => (significand, exponent)
  | c :: rest =>
      let next := significand * 10 + (c.toNat - '0'.toNat)
      if exponent = 0 ∧ next ≤ significandLimit then takeWhole next 0 rest
      else takeWhole significand (exponent + 1) rest

/-- The significand and the exponent of ten after digits behind the point. -/
def takeFraction (significand : Nat) (exponent : Int) : List Char → Nat × Int
  | [] => (significand, exponent)
  | c :: rest =>
      let next := significand * 10 + (c.toNat - '0'.toNat)
      if next ≤ significandLimit then takeFraction next (exponent - 1) rest
      else (significand, exponent)

def tenTo (n : Nat) : Float := Float.ofScientific 1 false n

/-- A double divided by the greatest power of ten until the exponent is within reach or nothing is
left. -/
def scaleDown : Nat → Float → Nat → Float
  | 0, x, _ => x
  | fuel + 1, x, places =>
      if places ≤ 308 then x / tenTo places
      else if x == 0.0 then x
      else scaleDown fuel (x / tenTo 308) (places - 308)

/-- The double `x * 10 ^ exponent` by double arithmetic, unless it is beyond the doubles. -/
def scale? (x : Float) (exponent : Int) : Option Float :=
  if exponent < 0 then some (scaleDown 4 x exponent.natAbs)
  else if exponent ≤ 308 then
    let scaled := x * tenTo exponent.toNat
    if scaled.isInf then none else some scaled
  else if x == 0.0 then some x
  else none

def NumberForm.value? (form : NumberForm) : Option Json :=
  let (significand, exponent) := takeWhole 0 0 form.whole
  if form.fraction.isEmpty && form.exponent.isNone && exponent == 0 then
    let value : Int := if form.negative then -significand else significand
    if form.negative && significand == 0 then some (.float (-0.0))
    else match Number.bounded? value with
      | some value => some (.int value.toInt)
      | none => some (.float (Number.nearest value))
  else do
    let (significand, exponent) := takeFraction significand exponent form.fraction
    let size ← scale? (Number.nearest significand) (exponent + form.exponent.getD 0)
    return .float (if form.negative then -size else size)

/-- The text that pieces stand for.  A high surrogate has to be followed by a low one. -/
def textOfPieces? : List Piece → Option (List Char)
  | [] => some []
  | .char c :: rest => (textOfPieces? rest).map (c :: ·)
  | .unit high :: rest =>
      if 0xD800 ≤ high ∧ high < 0xDC00 then
        match rest with
        | .unit low :: rest =>
            if 0xDC00 ≤ low ∧ low < 0xE000 then
              (textOfPieces? rest).map
                (Char.ofNat (0x10000 + (high - 0xD800) * 0x400 + (low - 0xDC00)) :: ·)
            else none
        | _ => none
      else if 0xDC00 ≤ high ∧ high < 0xE000 then none
      else (textOfPieces? rest).map (Char.ofNat high :: ·)

mutual

/-- The value of a form that may nest arrays and objects `levels` deep. -/
def Form.value? (levels : Nat) : Form → Option Json
  | .null => some .null
  | .bool value => some (.bool value)
  | .number form => form.value?
  | .str pieces => (textOfPieces? pieces).map fun text => .str (String.ofList text)
  | .array items =>
      if levels = 0 then none else (itemsValue? (levels - 1) items).map .array
  | .object members =>
      if levels = 0 then none else (membersValue? (levels - 1) members).map .object

def itemsValue? (levels : Nat) : List Form → Option (List Json)
  | [] => some []
  | item :: rest => do return (← item.value? levels) :: (← itemsValue? levels rest)

def membersValue? (levels : Nat) : List (List Piece × Form) → Option (List (String × Json))
  | [] => some []
  | (key, value) :: rest => do
      let key ← textOfPieces? key
      return (String.ofList key, ← value.value? levels) :: (← membersValue? levels rest)

end

def levelLimit : Nat := 127

def ofText? (text : String) : Option Json := (Form.ofText? text).bind (·.value? levelLimit)

end Stepwise.Json
