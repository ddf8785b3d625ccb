import Stepwise.Number.Binary
import Stepwise.Number.Shortest
import Stepwise.Text.Letter

/-!
Numbers read from text.
-/

namespace Stepwise.Number

def digitValue? (c : Char) : Option Nat :=
  if '0' ≤ c ∧ c ≤ '9' then some (c.toNat - '0'.toNat)
  else if 'a' ≤ c ∧ c ≤ 'z' then some (c.toNat - 'a'.toNat + 10)
  else if 'A' ≤ c ∧ c ≤ 'Z' then some (c.toNat - 'A'.toNat + 10)
  else none

/-- The number that a digit string continues, read on from `value`. -/
def continueNatural? (base value : Nat) : List Char → Option Nat
  | [] => some value
  | c :: rest =>
      match digitValue? c with
      | some digit =>
          if digit < base then continueNatural? base (value * base + digit) rest else none
      | none => none

/-- The number that a digit string without any other character denotes. -/
def natural? (base : Nat) (text : List Char) : Option Nat :=
  if text.isEmpty then none else continueNatural? base 0 text

/-- An exponent after its mark: an optional sign and at least one digit. -/
def exponent? : List Char → Option Int
  | '+' :: rest => (natural? 10 rest).map fun n => (n : Int)
  | '-' :: rest => (natural? 10 rest).map fun n => -(n : Int)
  | rest => (natural? 10 rest).map fun n => (n : Int)

/-- A decimal without a sign: digits with an optional point, of which at least one digit, then an
optional exponent. -/
def decimal? (text : List Char) : Option Decimal :=
  let whole := text.takeWhile Text.isDigit
  let afterWhole := text.dropWhile Text.isDigit
  let (fraction, rest) :=
    match afterWhole with
    | '.' :: more => (more.takeWhile Text.isDigit, more.dropWhile Text.isDigit)
    | more => ([], more)
  match natural? 10 (whole ++ fraction) with
  | none => none
  | some significand =>
      let scale : Int := -fraction.length
      match rest with
      | [] => some ⟨significand, scale⟩
      | mark :: more =>
          if mark == 'e' || mark == 'E' then
            (exponent? more).map fun exponent => ⟨significand, scale + exponent⟩
          else none

def Decimal.toFloat (decimal : Decimal) : Float :=
  Float.ofScientific decimal.digits (decimal.exponent < 0) decimal.exponent.natAbs

end Stepwise.Number
