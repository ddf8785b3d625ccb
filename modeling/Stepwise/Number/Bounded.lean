/-!
Integers of 64 bits whose operations never wrap.

Every operation computes in the integers and answers only if the result has 64 bits.
-/

namespace Stepwise.Number

def least : Int := -9223372036854775808

def greatest : Int := 9223372036854775807

/-- The 64-bit integer of this value, if there is one. -/
def bounded? (n : Int) : Option Int64 :=
  if least ≤ n ∧ n ≤ greatest then some (Int64.ofInt n) else none

def saturated (n : Int) : Int64 := Int64.ofInt (max least (min greatest n))

theorem least_le_toInt (i : Int64) : least ≤ i.toInt := by
  have := i.le_toInt
  simpa [least] using this

theorem toInt_le_greatest (i : Int64) : i.toInt ≤ greatest := by
  have := i.toInt_lt
  simp only [greatest]
  omega

theorem toInt_ofInt_of_bounds {n : Int} (lower : least ≤ n) (upper : n ≤ greatest) :
    (Int64.ofInt n).toInt = n := by
  simp only [least, greatest] at lower upper
  exact Int64.toInt_ofInt_of_le (by simpa using lower) (by omega)

theorem toInt_saturated (n : Int) : (saturated n).toInt = max least (min greatest n) := by
  refine toInt_ofInt_of_bounds ?_ ?_ <;> simp only [least, greatest] <;> omega

theorem bounded?_eq_some_iff {n : Int} {i : Int64} : bounded? n = some i ↔ i.toInt = n := by
  constructor
  · intro found
    simp only [bounded?] at found
    split at found
    next bounds =>
      obtain rfl := Option.some.inj found
      exact toInt_ofInt_of_bounds bounds.1 bounds.2
    next => simp at found
  · rintro rfl
    simp [bounded?, least_le_toInt, toInt_le_greatest]

@[simp]
theorem bounded?_toInt (i : Int64) : bounded? i.toInt = some i :=
  bounded?_eq_some_iff.mpr rfl

/-- Whether an integer is the value of some 64-bit integer decides `bounded?`. -/
theorem bounded?_eq_none_iff {n : Int} : bounded? n = none ↔ n < least ∨ greatest < n := by
  simp only [bounded?]
  split <;> simp <;> omega

/-- Whether the quotient of two integers has 64 bits.  The only one that has not is that of the least
integer by -1. -/
def hasQuotient (x y : Int64) : Bool := y != 0 && !(x == Int64.minValue && y == -1)

/-- The quotient rounded down: rounded toward zero by the machine, and one less where that is above
the exact quotient. -/
def floorQuotient? (x y : Int64) : Option Int64 :=
  if hasQuotient x y then
    let quotient := x / y
    some (if x % y != 0 && decide (x < 0) != decide (y < 0) then quotient - 1 else quotient)
  else none

/-- The remainder of the quotient rounded down: that of the machine, which has the sign of the
dividend, brought to the sign of the divisor.  It is refused where the quotient is. -/
def floorRemainder? (x y : Int64) : Option Int64 :=
  if hasQuotient x y then
    let rest := x % y
    some (if rest != 0 && decide (rest < 0) != decide (y < 0) then rest + y else rest)
  else none

def product? (x y : Int64) : Option Int64 := bounded? (x.toInt * y.toInt)

/-- An integer multiplied by a power, by repeated squaring.  Every product has to have 64 bits, and no
square is computed that is not used. -/
def timesPower? (result base : Int64) (exponent : Nat) : Option Int64 :=
  if exponent = 0 then some result
  else
    (if exponent % 2 = 1 then product? result base else some result).bind fun result =>
      if exponent = 1 then some result
      else (product? base base).bind fun square => timesPower? result square (exponent / 2)
termination_by exponent

/-- The value of `base ^ exponent` if it has 64 bits.  Exponents of more than 32 bits are not
multiplied out. -/
def power? (base : Int64) (exponent : Nat) : Option Int64 :=
  if exponent < 4294967296 then timesPower? 1 base exponent
  else if base == 0 || base == 1 then some base
  else if base == -1 then some (if exponent % 2 = 0 then 1 else -1)
  else none

end Stepwise.Number
