import Stepwise.Run.Action

/-!
Items and slices of values.
-/

namespace Stepwise.Run

open Stepwise.Run.Action

/-- The position that an index stands for in a sequence; a negative one counts from the end. -/
def position? (index : Int64) (length : Nat) : Option Nat :=
  let i := if index.toInt < 0 then index.toInt + length else index.toInt
  if 0 ≤ i ∧ i < length then some i.toNat else none

def indexOf (noun : String) (index : Value) : Action Int64 :=
  match index.index? with
  | some i => return i
  | none => typeError index (.sequenceIndex noun)

def itemAt {α : Type} (item : Option α) (problem : IndexProblem) : Action α :=
  match item with
  | some item => return item
  | none => throw (.index problem)

def ofChar (c : Char) : Value := .str c.toString

/-- The item of a container at an index or under a key. -/
def item (container index : Value) : Action Value :=
  match container with
  | .list ref => do
      let i ← indexOf "list" index
      let items ← observe fun heap => heap.list ref
      itemAt ((position? i items.size).bind fun i => items[i]?) .list
  | .tuple _ items => do
      let i ← indexOf "tuple" index
      itemAt ((position? i items.length).bind fun i => items[i]?) .tuple
  | .str text => do
      let characters := text.toList
      match index.index? with
      | none => typeError index .textIndex
      | some i =>
          ofChar <$> itemAt ((position? i characters.length).bind fun i => characters[i]?) .string
  | .dict ref => do
      let key ← keyOf index
      match (← observe fun heap => heap.dict ref).get? key with
      | some value => return value
      | none => throw (.key (← observe index.render))
  | .range values => do
      let i ← indexOf "range" index
      let i ←
        if i.toInt < 0 then
          match values.length? with
          | some length => pure (i.toInt + length.toInt)
          | none => throw .overflow
        else pure i.toInt
      .int <$> itemAt (values.get? i) .range
  | other => typeError other .notSubscriptable

/-- Sets the item of a container at an index or under a key. -/
def setItem (container index value : Value) : Action Unit :=
  match container with
  | .list ref => do
      let i ← indexOf "list" index
      let length ← observe fun heap => (heap.list ref).size
      let i ← itemAt (position? i length) .assignment
      update fun heap => heap.modifyList ref fun items => items.setIfInBounds i value
  | .dict ref => do
      let key ← keyOf index
      update fun heap => heap.modifyDict ref fun entries => entries.insert key value
  | other => typeError other .noItemAssignment

/-- A bound of a slice; an absent one and none are the same. -/
def sliceBound (bound : Option Value) : Action (Option Int64) :=
  match bound with
  | none => return none
  | some .none => return none
  | some value =>
      match value.index? with
      | some i => return some i
      | none => throw (.type .sliceBound)

/-- A bound of a slice brought between the ends of a sequence.  The ends are those that a walk in the
direction of the step starts and stops at. -/
def clamp (length : Int) (backward : Bool) (bound : Int) : Int :=
  if bound < 0 then
    let i := bound + length
    if i < 0 then if backward then -1 else 0 else i
  else if length ≤ bound then if backward then length - 1 else length
  else bound

/-- Where a slice of a sequence starts and where it stops. -/
def sliceEnds (length : Int) (lower upper : Option Int) (backward : Bool) : Int × Int :=
  ((lower.map (clamp length backward)).getD (if backward then length - 1 else 0),
    (upper.map (clamp length backward)).getD (if backward then -1 else length))

/-- A position as an unsigned number of 64 bits.  No sequence is long enough for one that was
negative. -/
def unsignedPosition (i : Int) : Nat := (i % 18446744073709551616).toNat

/-- The positions from `start` by `step` before `stop`.  There is none behind one whose successor leaves
the 64-bit integers. -/
def slicePositions (start stop step : Int) : List Nat :=
  if 0 < step ∧ start < stop ∨ step < 0 ∧ stop < start then
    unsignedPosition start ::
      if Number.least ≤ start + step ∧ start + step ≤ Number.greatest then
        slicePositions (start + step) stop step
      else []
  else []
termination_by (if 0 < step then stop - start else start - stop).toNat
decreasing_by
  split <;> omega

def sliceItems {α : Type} (items : Array α) (lower upper : Option Int) (step : Int) : List α :=
  let ends := sliceEnds items.size lower upper (step < 0)
  (slicePositions ends.1 ends.2 step).filterMap fun i => items[i]?

def sliceRange (values : Range) (length : Int) (lower upper : Option Int) (step : Int) : Range :=
  let ends := sliceEnds length lower upper (step < 0)
  let place (i : Int) : Int64 :=
    Number.saturated (values.start.toInt + (Number.saturated (i * values.step.toInt)).toInt)
  ⟨place ends.1, place ends.2, Number.saturated (values.step.toInt * step)⟩

def slice (container : Value) (lower upper step : Option Value) : Action Value := do
  let lower := (← sliceBound lower).map Int64.toInt
  let upper := (← sliceBound upper).map Int64.toInt
  let step := ((← sliceBound step).map Int64.toInt).getD 1
  if step = 0 then throw (.value .zeroSliceStep)
  match container with
  | .list ref => do
      let items ← observe fun heap => heap.list ref
      newList (sliceItems items lower upper step)
  | .tuple _ items => newTuple (sliceItems items.toArray lower upper step)
  | .str text => return .str (String.ofList (sliceItems text.toList.toArray lower upper step))
  | .range values =>
      match values.length? with
      | some length => return .range (sliceRange values length.toInt lower upper step)
      | none => throw .overflow
  | other => typeError other .notSubscriptable

end Stepwise.Run
