import Stepwise.Number.Bounded
import Stepwise.Number.Layout

/-!
Arithmetic progressions of 64-bit integers.

A range is given by its start, the stop that it does not reach, and its step.  All questions are
answered in the integers, so no start, stop and step overflow.
-/

namespace Stepwise

/-- How many steps lead from `start` without reaching `stop`; none if they lead away from it. -/
def stepCount (start stop step : Int) : Nat :=
  if 0 < step ∧ start < stop then ((stop - start - 1) / step + 1).toNat
  else if step < 0 ∧ stop < start then ((start - stop - 1) / -step + 1).toNat
  else 0

/-- A progression from `start` by `step` that stays before `stop`. -/
structure Range where
  start : Int64
  stop : Int64
  step : Int64
  deriving Repr, DecidableEq

namespace Range

def length (range : Range) : Nat :=
  stepCount range.start.toInt range.stop.toInt range.step.toInt

/-- The number of elements as an integer of 64 bits, if it is one. -/
def length? (range : Range) : Option Int64 := Number.bounded? range.length

def isEmpty (range : Range) : Bool := range.length == 0

def get? (range : Range) (index : Int) : Option Int64 :=
  if 0 ≤ index ∧ index < range.length then
    some (Int64.ofInt (range.start.toInt + index * range.step.toInt))
  else none

def contains (range : Range) (value : Int64) : Bool :=
  let offset := value.toInt - range.start.toInt
  let step := range.step.toInt
  offset.tmod step == 0 && 0 ≤ offset.tdiv step && offset.tdiv step < range.length

def sameElements (a b : Range) : Bool :=
  a.length == b.length && (a.isEmpty || (a.start == b.start && a.step == b.step))

/-- The text of a range; a step of one is left out. -/
def text (range : Range) : String :=
  let bounds := Number.integerText range.start.toInt ++ ", " ++ Number.integerText range.stop.toInt
  if range.step == 1 then "range(" ++ bounds ++ ")"
  else "range(" ++ bounds ++ ", " ++ Number.integerText range.step.toInt ++ ")"

end Range

end Stepwise
