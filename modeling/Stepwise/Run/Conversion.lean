import Stepwise.Number.Bounded
import Stepwise.Number.Double
import Stepwise.Number.Reading
import Stepwise.Run.Error
import Stepwise.Text.Blank

/-!
Numbers that scripts read from text.

Blanks around the text and underscores in it do not count.
-/

namespace Stepwise.Run

/-- A text without blanks at its ends and without underscores. -/
def cleaned (text : List Char) : List Char := (Text.trim text).filter (· != '_')

inductive IntegerText where
  | integer (value : Int)
  | malformed
  deriving Repr, DecidableEq

/-- The range that digits are read in before their sign is applied: 128 bits, of which one is for a
sign of their own. -/
def wideLeast : Int := -170141183460469231731687303715884105728

def wideGreatest : Int := 170141183460469231731687303715884105727

def signedDigits (base : Nat) (text : List Char) : IntegerText :=
  let read (negative : Bool) (digits : List Char) : IntegerText :=
    match Number.natural? base digits with
    | none => .malformed
    | some size =>
        let value : Int := if negative then -size else size
        if wideLeast ≤ value ∧ value ≤ wideGreatest then .integer value else .malformed
  match text with
  | '-' :: rest => read true rest
  | '+' :: rest => read false rest
  | rest => read false rest

/-- The integer that a cleaned text denotes: a sign, then digits that may have another one. -/
def integerText (base : Nat) (text : List Char) : IntegerText :=
  match text with
  | '-' :: rest =>
      match signedDigits base rest with
      | .integer value => .integer (-value)
      | .malformed => .malformed
  | '+' :: rest => signedDigits base rest
  | rest => signedDigits base rest

/-- The integer that a text denotes in a base.  `shown` is the text as it is shown in an error. -/
def readInteger (text : List Char) (shown : String) (base : Int) : Except RuntimeError Int64 :=
  if base < 2 ∨ 36 < base then .error (.value .badBase)
  else
    match integerText base.toNat (cleaned text) with
    | .malformed => .error (.value (.badIntegerText base shown))
    | .integer value =>
        match Number.bounded? value with
        | some value => .ok value
        | none => .error .overflow

def floatWord? (word : List Char) : Option Number.Double :=
  if word == ['i', 'n', 'f'] || word == ['i', 'n', 'f', 'i', 'n', 'i', 't', 'y'] then
    some (.ofFloat (1.0 / 0.0))
  else if word == ['n', 'a', 'n'] then some .notANumber
  else none

/-- A letter of the basic alphabet in lower case; any other character as it is. -/
def lowerBasic (c : Char) : Char :=
  if 'A' ≤ c ∧ c ≤ 'Z' then Char.ofNat (c.toNat + 32) else c

def floatSize? (text : List Char) : Option Number.Double :=
  match Number.decimal? text with
  | some decimal => some (.ofFloat decimal.toFloat)
  | none => floatWord? (text.map lowerBasic)

def readDouble? (text : List Char) : Option Number.Double :=
  match cleaned text with
  | '-' :: rest => (floatSize? rest).map fun size => size.negated
  | '+' :: rest => floatSize? rest
  | rest => floatSize? rest

end Stepwise.Run
