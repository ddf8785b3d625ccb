import Stepwise.Number.Bounded
import Stepwise.Run.Error
import Stepwise.Script.Tree
import Stepwise.Value.Key

/-!
Arithmetic of numbers.

Integers are exact and have 64 bits or overflow.  Division with a remainder rounds the quotient
down, so the remainder has the sign of the divisor.  A double on either side makes the other one a
double.
-/

namespace Stepwise.Run

open Script

def checked (n : Option Int64) : Except RuntimeError Number :=
  match n with
  | some value => .ok (.int value)
  | none => .error .overflow

def intOperation (op : BinaryOp) (x y : Int64) : Except RuntimeError Number :=
  let a := x.toInt
  let b := y.toInt
  match op with
  | .add => checked (Number.bounded? (a + b))
  | .subtract => checked (Number.bounded? (a - b))
  | .multiply => checked (Number.bounded? (a * b))
  | .divide =>
      if b = 0 then .error (.zeroDivision .division)
      else .ok (.float (.ofFloat (Number.nearest a / Number.nearest b)))
  | .floorDivide =>
      if b = 0 then .error (.zeroDivision .intFloorDivision)
      else checked (Number.floorQuotient? x y)
  | .modulo =>
      if b = 0 then .error (.zeroDivision .intModulo)
      else checked (Number.floorRemainder? x y)
  | .power =>
      if 0 ≤ b then checked (Number.power? x b.toNat)
      else if a = 0 then .error (.zeroDivision .negativePower)
      else .ok (.float (.ofFloat (Float.pow (Number.nearest a) (Number.nearest b))))

def floatModulo (x y : Float) : Float :=
  let rest := Number.remainder x y
  if rest != 0.0 && (rest < 0.0) != (y < 0.0) then rest + y else rest

def doubleOperation (op : BinaryOp) (x y : Number.Double) : Except RuntimeError Number :=
  match op with
  | .add => .ok (.float (.combine (· + ·) x y))
  | .subtract => .ok (.float (.combine (· - ·) x y))
  | .multiply => .ok (.float (.combine (· * ·) x y))
  | .divide =>
      if y.toFloat == 0.0 then .error (.zeroDivision .floatDivision)
      else .ok (.float (.combine (· / ·) x y))
  | .floorDivide =>
      if y.toFloat == 0.0 then .error (.zeroDivision .floatFloorDivision)
      else .ok (.float (.combine (fun x y => Number.integral .downward (x / y)) x y))
  | .modulo =>
      if y.toFloat == 0.0 then .error (.zeroDivision .floatModulo)
      else .ok (.float (.combine floatModulo x y))
  | .power =>
      if x.toFloat == 0.0 && y.toFloat < 0.0 then .error (.zeroDivision .negativePower)
      else if x.toFloat < 0.0 && !Number.isIntegral y.toFloat then
        .error (.value .fractionalPower)
      else .ok (.float (x.power y))

def numberOperation (op : BinaryOp) : Number → Number → Except RuntimeError Number
  | .int x, .int y => intOperation op x y
  | x, y => doubleOperation op x.toDouble y.toDouble

def negated : Number → Except RuntimeError Number
  | .int value => checked (Number.bounded? (-value.toInt))
  | .float value => .ok (.float value.negated)

def absolute : Number → Except RuntimeError Number
  | .int value => checked (Number.bounded? value.toInt.natAbs)
  | .float value => .ok (.float value.absolute)

def toInteger (rounding : Number.Rounding) (x : Float) : Except RuntimeError Number :=
  if x.isNaN then .error (.value .notANumberToInteger)
  else
    match Number.integer? rounding x with
    | none => .error .overflow
    -- the least integer is refused too: its size is out of range
    | some n => if n = Number.least then .error .overflow else checked (Number.bounded? n)

/-- A number rounded to a number of decimal places, or to an integer. -/
def rounded (number : Number) (places : Option Int64) : Except RuntimeError Number :=
  match number, places with
  | .int value, none => .ok (.int value)
  | .int value, some places =>
      if 0 ≤ places.toInt then .ok (.int value)
      else
        match Number.power? 10 places.toInt.natAbs with
        | none => .ok (.int 0)
        | some factor =>
            let scale := Number.nearest factor.toInt
            toInteger .towardZero
              (Number.integral .halfToEven (Number.nearest value.toInt / scale) * scale)
  | .float value, none => toInteger .halfToEven value.toFloat
  | .float value, some places =>
      let factor := Number.wholePower 10.0 (max (-308) (min 308 places.toInt))
      let result := Number.integral .halfToEven (value.toFloat * factor) / factor
      .ok (.float (if result.isFinite then .ofFloat result else value))

end Stepwise.Run
