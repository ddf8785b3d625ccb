import Stepwise.Number.Bounded

/-!
Doubles as exact binary fractions.

A finite double is a sign, a significand and a power of two.  Everything that depends on the exact
value of a double, such as rounding to an integer or the remainder of a division, is computed on
that form in integer arithmetic.
-/

namespace Stepwise.Number

inductive Binary where
  /-- The value `significand * 2 ^ exponent`, negated if `negative` is set; zeros keep a sign. -/
  | finite (negative : Bool) (significand : Nat) (exponent : Int)
  | infinite (negative : Bool)
  | notANumber
  deriving Repr, DecidableEq

/-- Ways to choose an integer near a binary fraction. -/
inductive Rounding where
  | towardZero
  | downward
  | halfToEven
  deriving Repr, DecidableEq

namespace Binary

def leastExponent : Int := -1074

/-- The leading bit of a significand of 53 bits, which the bits of a double leave out. -/
def hiddenBit : Nat := 4503599627370496

def signBit : Nat := 9223372036854775808

def ofBits (bits : Nat) : Binary :=
  let negative := bits / signBit % 2 == 1
  let exponent : Nat := bits / hiddenBit % 2048
  let fraction := bits % hiddenBit
  if exponent == 2047 then
    if fraction == 0 then .infinite negative else .notANumber
  else if exponent == 0 then .finite negative fraction leastExponent
  else .finite negative (hiddenBit + fraction) (leastExponent + (exponent : Int) - 1)

def ofFloat (x : Float) : Binary := ofBits x.toBits.toNat

/-- The double `significand * 2 ^ exponent`.  The value has to be that of some double: `exponent`
is at least the least exponent, and the significand has at most 53 bits. -/
def compose (negative : Bool) (significand : Nat) (exponent : Int) : Float :=
  let shift := min (52 - significand.log2) (exponent - leastExponent).toNat
  let full := significand * Nat.pow 2 shift
  let field := (exponent - shift - leastExponent + 1).toNat
  let magnitude := if full < hiddenBit then full else field * hiddenBit + (full - hiddenBit)
  Float.ofBits (UInt64.ofNat (if negative then signBit + magnitude else magnitude))

/-- The integer that a rounding chooses for `significand / 2 ^ places`, before the sign. -/
def quotient (rounding : Rounding) (negative : Bool) (significand places : Nat) : Nat :=
  let unit := Nat.pow 2 places
  let whole := significand / unit
  let rest := significand % unit
  match rounding with
  | .towardZero => whole
  | .downward => if negative && rest != 0 then whole + 1 else whole
  | .halfToEven =>
      if 2 * rest < unit then whole
      else if unit < 2 * rest then whole + 1
      else if whole % 2 == 0 then whole else whole + 1

/-- The size of the integer that a rounding chooses for `significand * 2 ^ exponent`. -/
def magnitude (rounding : Rounding) (negative : Bool) (significand : Nat) (exponent : Int) : Nat :=
  if 0 ≤ exponent then significand * Nat.pow 2 exponent.toNat
  else quotient rounding negative significand (-exponent).toNat

end Binary

/-- The integer that a rounding chooses for a double, if the double is finite. -/
def integer? (rounding : Rounding) (x : Float) : Option Int :=
  match Binary.ofFloat x with
  | .finite negative significand exponent =>
      let size := Binary.magnitude rounding negative significand exponent
      some (if negative then -size else size)
  | _ => none

/-- The double nearest to an integer; ties go to the even significand. -/
def nearest (n : Int) : Float := Float.ofInt n

/-- A double rounded to an integral double.  The sign stays, also that of a zero result. -/
def integral (rounding : Rounding) (x : Float) : Float :=
  match Binary.ofFloat x with
  | .finite negative significand exponent =>
      if 0 ≤ exponent then x
      else
        let size := Float.ofNat (Binary.magnitude rounding negative significand exponent)
        if negative then -size else size
  | _ => x

/-- Whether a double is finite and has no fractional part. -/
def isIntegral (x : Float) : Bool :=
  match Binary.ofFloat x with
  | .finite _ significand exponent =>
      0 ≤ exponent || significand % Nat.pow 2 (-exponent).toNat == 0
  | _ => false

/-- The remainder of a division whose quotient is rounded toward zero.  It has the sign of the
dividend and is exact. -/
def remainder (x y : Float) : Float :=
  match Binary.ofFloat x, Binary.ofFloat y with
  | .finite negative m p, .finite _ n q =>
      if n = 0 then 0.0 / 0.0
      else
        let least := min p q
        let rest := m * Nat.pow 2 (p - least).toNat % (n * Nat.pow 2 (q - least).toNat)
        Binary.compose negative rest least
  | .finite .., .infinite _ => x
  | _, _ => 0.0 / 0.0

/-- The 64-bit integer nearest to the integer part of a double; zero for a NaN. -/
def saturatedInteger (x : Float) : Int :=
  match Binary.ofFloat x with
  | .finite negative significand exponent =>
      let size : Int := Binary.magnitude .towardZero negative significand exponent
      max least (min greatest (if negative then -size else size))
  | .infinite negative => if negative then least else greatest
  | .notANumber => 0

/-- A power with a whole exponent by repeated squaring.  The factors are multiplied in the order of
the bits of the exponent, the lowest first; each product is rounded. -/
def squarings (base : Float) (exponent : Nat) (result : Float) : Float :=
  if exponent = 0 then result
  else
    squarings (base * base) (exponent / 2)
      (if exponent % 2 = 1 then result * base else result)
termination_by exponent

/-- A power with an integer exponent; a negative one takes the reciprocal at the end. -/
def wholePower (base : Float) (exponent : Int) : Float :=
  let size := squarings base exponent.natAbs 1.0
  if exponent < 0 then 1.0 / size else size

end Stepwise.Number
