import Stepwise.Number.Binary

/-!
The fewest decimal digits that read back as a given double.

A positive double stands for the interval of reals that round to it.  For one digit, two digits and
so on, the two decimal fractions next to the double are tested; the first length with a fraction in
the interval is taken, and of two fractions the nearer.
-/

namespace Stepwise.Number

/-- What to do when the two neighbours of a double on a decimal grid are equally near. -/
inductive Tie where
  | toEven
  | upward
  deriving Repr, DecidableEq

structure Decimal where
  digits : Nat
  exponent : Int
  deriving Repr, DecidableEq

/-- The reals that round to a double, and the double, as multiples of a common unit
`1 / denominator`. -/
structure Interval where
  low : Nat
  value : Nat
  high : Nat
  denominator : Nat
  /-- Whether the two ends belong to the interval. -/
  closed : Bool

namespace Interval

/-- The interval of `significand * 2 ^ exponent`.  The lower end is nearer where the doubles below
are spaced more closely. -/
def ofBinary (significand : Nat) (exponent : Int) : Interval :=
  let nearBelow := significand == Binary.hiddenBit && Binary.leastExponent < exponent
  let scale := Nat.pow 2 (exponent - 2).toNat
  { low := (4 * significand - if nearBelow then 1 else 2) * scale
    value := 4 * significand * scale
    high := (4 * significand + 2) * scale
    denominator := Nat.pow 2 (2 - exponent).toNat
    closed := significand % 2 == 0 }

/-- Whether `n / d` lies in the interval. -/
def contains (interval : Interval) (n d : Nat) : Bool :=
  let x := n * interval.denominator
  if interval.closed then interval.low * d ≤ x && x ≤ interval.high * d
  else interval.low * d < x && x < interval.high * d

/-- The fraction with the last digit at `10 ^ place` that stands for the interval, if its value has
such a neighbour in it. -/
def onGrid? (interval : Interval) (tie : Tie) (place : Int) : Option Nat :=
  let up := Nat.pow 10 place.toNat
  let down := Nat.pow 10 (-place).toNat
  let below := interval.value * down / (interval.denominator * up)
  let above := below + 1
  -- twice the distance to the lower neighbour, compared with the distance between the neighbours
  let rest := 2 * (interval.value * down % (interval.denominator * up))
  match interval.contains (below * up) down, interval.contains (above * up) down with
  | false, false => none
  | true, false => some below
  | false, true => some above
  | true, true =>
      match compare rest (interval.denominator * up) with
      | .lt => some below
      | .gt => some above
      | .eq =>
          match tie with
          | .toEven => some (if below % 2 = 0 then below else above)
          | .upward => some above

end Interval

def digitCount (n : Nat) : Nat := (Nat.toDigits 10 n).length

/-- The place of the first digit of `n / d`: the greatest `e` with `10 ^ e ≤ n / d`. -/
def leadingPlace (n d : Nat) : Int :=
  let guess : Int := (digitCount n : Int) - digitCount d
  if d * Nat.pow 10 guess.toNat ≤ n * Nat.pow 10 (-guess).toNat then guess else guess - 1

/-- The first place, from `place` downward, where the interval has a fraction. -/
def firstGrid (interval : Interval) (tie : Tie) : Nat → Int → Decimal
  | 0, place => ⟨interval.value / interval.denominator, place⟩
  | fuel + 1, place =>
      match interval.onGrid? tie place with
      | some digits => ⟨digits, place⟩
      | none => firstGrid interval tie fuel (place - 1)

def Decimal.trimmed : Nat → Decimal → Decimal
  | 0, decimal => decimal
  | fuel + 1, ⟨digits, exponent⟩ =>
      if digits ≠ 0 ∧ digits % 10 = 0 then Decimal.trimmed fuel ⟨digits / 10, exponent + 1⟩
      else ⟨digits, exponent⟩

/-- The shortest decimal that reads back as `significand * 2 ^ exponent`, a positive double.
Seventeen digits always suffice. -/
def shortest (tie : Tie) (significand : Nat) (exponent : Int) : Decimal :=
  let interval := Interval.ofBinary significand exponent
  let decimal :=
    firstGrid interval tie 17 (leadingPlace interval.value interval.denominator)
  decimal.trimmed 17

end Stepwise.Number
