import Stepwise.Number.Binary

/-!
Doubles by their bits.

There are two NaNs, which only their sign tells apart.  No comparison of values sees that sign, but
every operation hands it on, so a double is kept as its 64 bits.
-/

namespace Stepwise.Number

structure Double where
  bits : UInt64
  deriving Repr, DecidableEq

namespace Double

def notANumber : Double := ⟨0x7FF8000000000000⟩

def undefined : Double := ⟨0xFFF8000000000000⟩

/-- The value of a double.  It is the same for both NaNs. -/
def toFloat (x : Double) : Float := Float.ofBits x.bits

def ofFloat (value : Float) : Double := ⟨value.toBits⟩

def isNaN (x : Double) : Bool := x.toFloat.isNaN

def negated (x : Double) : Double := ⟨x.bits ^^^ 0x8000000000000000⟩

def absolute (x : Double) : Double := ⟨x.bits &&& 0x7FFFFFFFFFFFFFFF⟩

/-- The result of an operation.  A NaN among the operands is the result, the left one if both
are. -/
def combine (operation : Float → Float → Float) (x y : Double) : Double :=
  if x.isNaN then x
  else if y.isNaN then y
  else
    let result := operation x.toFloat y.toFloat
    if result.isNaN then undefined else ofFloat result

def isOdd (x : Double) : Bool :=
  isIntegral x.toFloat &&
    match integer? .towardZero x.toFloat with
    | some n => n % 2 != 0
    | none => false

/-- A power.  One is a power even where an operand is a NaN: if the exponent is zero or the base is
one.  Every other power of a NaN is that NaN, without its sign if the exponent is odd. -/
def power (base exponent : Double) : Double :=
  let result := Float.pow base.toFloat exponent.toFloat
  if !result.isNaN then ofFloat result
  else if base.isNaN then (if exponent.isOdd then base.absolute else base)
  else if exponent.isNaN then exponent
  else undefined

end Double

end Stepwise.Number
