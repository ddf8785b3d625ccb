import Stepwise.Value.Basic

/-!
Equality, identity and order of values.

Values that contain themselves can be compared forever.  The comparisons take a bound on how deep
they look and give no answer below it; a greater bound never changes an answer.
-/

namespace Stepwise

/-- Whether two lists have equal items in order, with an equality that may give no answer. -/
def allEqual (equal : Value → Value → Option Bool) : List Value → List Value → Option Bool
  | [], [] => some true
  | a :: as, b :: bs =>
      match equal a b with
      | some true => allEqual equal as bs
      | other => other
  | _, _ => some false

/-- Whether every entry has an equal value under its key in another dict. -/
def allFound (equal : Value → Value → Option Bool) (other : Dict Value) :
    List (Key × Value) → Option Bool
  | [] => some true
  | (key, value) :: rest =>
      match other.get? key with
      | none => some false
      | some found =>
          match equal value found with
          | some true => allFound equal other rest
          | answer => answer

namespace Value

/-- Equality of values by content and across number types, given that of the values inside. -/
def equalBy (heap : Heap) (inner : Value → Value → Option Bool) (a b : Value) : Option Bool :=
  match a.number?, b.number? with
  | some x, some y => some (x.equal y)
  | _, _ =>
      match a, b with
      | .none, .none => some true
      | .str a, .str b => some (a == b)
      | .list a, .list b =>
          let as := (heap.list a).toList
          let bs := (heap.list b).toList
          if a = b then some true
          else if as.length = bs.length then allEqual inner as bs
          else some false
      | .tuple _ as, .tuple _ bs =>
          if as.length = bs.length then allEqual inner as bs else some false
      | .dict a, .dict b =>
          if a = b then some true
          else if (heap.dict a).size = (heap.dict b).size then
            allFound inner (heap.dict b) (heap.dict a).entries
          else some false
      | .function a, .function b => some (a == b)
      | .builtin a, .builtin b => some (a == b)
      | .range a, .range b => some (a.sameElements b)
      | .iterator a, .iterator b => some (a == b)
      | _, _ => some false

/-- Equality of values that nest less than `depth` deep. -/
def equal (heap : Heap) : Nat → Value → Value → Option Bool
  | 0, _, _ => Option.none
  | depth + 1, a, b => equalBy heap (equal heap depth) a b

/-- Whether the items of the list `held` are needed to compare two values. -/
def needs (held : Nat) : Value → Value → Bool
  | .list a, .list b => a != b && (a == held || b == held)
  | _, _ => false

/-- Equality while a list is being changed and its items cannot be read; where they are needed, there
is no answer. -/
def equalBeside (heap : Heap) (held : Nat) : Nat → Value → Value → Option Bool
  | 0, _, _ => Option.none
  | depth + 1, a, b =>
      if needs held a b then Option.none else equalBy heap (equalBeside heap held depth) a b

def same : Value → Value → Bool
  | .none, .none => true
  | .bool a, .bool b => a == b
  | .int a, .int b => a == b
  | .float a, .float b => a == b
  | .str a, .str b => a == b
  | .list a, .list b => a == b
  | .tuple a _, .tuple b _ => a == b
  | .dict a, .dict b => a == b
  | .function a, .function b => a == b
  | .builtin a, .builtin b => a == b
  | .range a, .range b => a == b
  | .iterator a, .iterator b => a == b
  | _, _ => false

def orderText (a b : String) : Ordering :=
  if a < b then .lt else if a == b then .eq else .gt

/-- The result of ordering two values: an order, none if a NaN was involved, or the two values whose
types have no order. -/
abbrev OrderResult := Except (Value × Value) (Option Ordering)

/-- The order of two lists of values: that of the first items that are not equal, else that of the
lengths. -/
def orderItems (equal : Value → Value → Option Bool) (order : Value → Value → Option OrderResult) :
    List Value → List Value → Option OrderResult
  | a :: as, b :: bs =>
      match equal a b with
      | some true => orderItems equal order as bs
      | some false => order a b
      | Option.none => Option.none
  | [], [] => some (.ok (some .eq))
  | [], _ => some (.ok (some .lt))
  | _, [] => some (.ok (some .gt))

/-- The order of values that nest less than `depth` deep. -/
def order (heap : Heap) : Nat → Value → Value → Option OrderResult
  | 0, _, _ => Option.none
  | depth + 1, a, b =>
      match a.number?, b.number? with
      | some x, some y => some (.ok (x.order? y))
      | _, _ =>
          match a, b with
          | .str a, .str b => some (.ok (some (orderText a b)))
          | .list a, .list b =>
              orderItems (equal heap depth) (order heap depth) (heap.list a).toList
                (heap.list b).toList
          | .tuple _ as, .tuple _ bs => orderItems (equal heap depth) (order heap depth) as bs
          | a, b => some (.error (a, b))

end Value

end Stepwise
