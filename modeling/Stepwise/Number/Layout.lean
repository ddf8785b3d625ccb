import Stepwise.Number.Shortest

/-!
How the digits of a double are laid out as text.

The digits are always the shortest ones; a `Layout` fixes everything else.
-/

namespace Stepwise.Number

/-- The decisions of a textual form for doubles. -/
structure Layout where
  /-- Which of two equally near digit strings is taken. -/
  tie : Tie
  /-- The places of the first digit from which on, and below which, no exponent is written. -/
  leastPlain : Int
  endPlain : Int
  /-- The least number of digits of an exponent. -/
  exponentWidth : Nat
  notANumber : String
  infinite : String
  negativeInfinite : String

def digits (n : Nat) : List Char := Nat.toDigits 10 n

def padded (width : Nat) (text : List Char) : List Char :=
  List.replicate (width - text.length) '0' ++ text

/-- A decimal with a point and at least one digit on either side of it. -/
def plain (decimal : Decimal) : List Char :=
  if 0 ≤ decimal.exponent then
    digits (decimal.digits * Nat.pow 10 decimal.exponent.toNat) ++ ['.', '0']
  else
    let places := (-decimal.exponent).toNat
    let unit := Nat.pow 10 places
    digits (decimal.digits / unit) ++ '.' :: padded places (digits (decimal.digits % unit))

/-- A decimal with one digit before the point, and an exponent that always has a sign. -/
def scientific (width : Nat) (decimal : Decimal) : List Char :=
  let text := digits decimal.digits
  let exponent := decimal.exponent + text.length - 1
  let mantissa :=
    match text with
    | first :: second :: rest => first :: '.' :: second :: rest
    | short => short
  mantissa ++ 'e' :: (if exponent < 0 then '-' else '+') ::
    padded width (digits exponent.natAbs)

def Layout.text (layout : Layout) (x : Float) : String :=
  match Binary.ofFloat x with
  | .notANumber => layout.notANumber
  | .infinite negative => if negative then layout.negativeInfinite else layout.infinite
  | .finite negative significand exponent =>
      let size :=
        if significand = 0 then ['0', '.', '0']
        else
          let decimal := shortest layout.tie significand exponent
          let place := decimal.exponent + (digits decimal.digits).length - 1
          if layout.leastPlain ≤ place ∧ place < layout.endPlain then plain decimal
          else scientific layout.exponentWidth decimal
      String.ofList (if negative then '-' :: size else size)

/-- The form of a double in a script: a point between `0.0001` and `10 ^ 16`, and exponents of at
least two digits. -/
def Layout.script : Layout :=
  { tie := .upward, leastPlain := -4, endPlain := 16, exponentWidth := 2,
    notANumber := "nan", infinite := "inf", negativeInfinite := "-inf" }

/-- The form of a double in an interchange text: a point between `0.00001` and `10 ^ 16`.  What is
not finite has no form of its own there. -/
def Layout.interchange : Layout :=
  { tie := .toEven, leastPlain := -5, endPlain := 16, exponentWidth := 1,
    notANumber := "null", infinite := "null", negativeInfinite := "null" }

def integerText (n : Int) : String :=
  String.ofList (if n < 0 then '-' :: digits n.natAbs else digits n.natAbs)

end Stepwise.Number
