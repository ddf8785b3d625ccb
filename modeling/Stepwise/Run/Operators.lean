import Stepwise.Run.Action
import Stepwise.Run.Arithmetic
import Stepwise.Text.Search

/-!
Operators on values.
-/

namespace Stepwise.Run

open Script Stepwise.Run.Action

def ofNumber : Number → Value
  | .int value => .int value
  | .float value => .float value

def numberValue (result : Except RuntimeError Number) : Action Value :=
  match result with
  | .ok number => return ofNumber number
  | .error error => throw error

def unary (op : UnaryOp) (operand : Value) : Action Value :=
  match op with
  | .not => return .bool (!(← observe operand.truthy))
  | .negate =>
      match operand.number? with
      | some number => numberValue (negated number)
      | none => typeError operand (.unary "-")
  | .plus =>
      match operand.number? with
      | some number => return ofNumber number
      | none => typeError operand (.unary "+")

def unsupported {α : Type} (op : BinaryOp) (left right : Value) : Action α := do
  let heap ← get
  throw (.type (.binary op.spelling (left.typeName heap) (right.typeName heap)))

def copies {α : Type} (times : Nat) (items : List α) : List α :=
  if items.isEmpty then [] else (List.replicate times items).flatten

/-- So many copies of so many units, if a size can say how many that is.  A sequence of more than half
of all sizes cannot be set up; memory may run out earlier, which is left out here. -/
@[macro_inline]
def copying (units times : Nat) (copy : Action Value) : Action Value :=
  if 18446744073709551616 ≤ units * times then throw .overflow
  else if 9223372036854775808 ≤ units * times then broken
  else copy

def repeated? (sequence count : Value) : Option (Action Value) :=
  match count.index?, sequence with
  | some count, .str content =>
      let times := count.toInt.toNat
      some <| copying content.utf8ByteSize times do
        return .str (String.ofList (copies times content.toList))
  | some count, .list ref =>
      let times := count.toInt.toNat
      some do
        let items := (← observe fun heap => heap.list ref).toList
        copying items.length times (newList (copies times items))
  | some count, .tuple _ items =>
      let times := count.toInt.toNat
      some <| copying items.length times (newTuple (copies times items))
  | _, _ => none

def concatenated (left right : Value) : Action Value :=
  match left, right with
  | .str a, .str b => return .str (a ++ b)
  | .list a, .list b => do
      let items ← observe fun heap => heap.list a ++ heap.list b
      newList items.toList
  | .tuple _ a, .tuple _ b => newTuple (a ++ b)
  | .str _, _ | .list _, _ | .tuple .., _ => do
      let heap ← get
      throw (.type (.concatenation (left.typeName heap) (right.typeName heap)))
  | _, _ => unsupported .add left right

def binary (op : BinaryOp) (left right : Value) : Action Value :=
  match left.number?, right.number? with
  | some x, some y => numberValue (numberOperation op x y)
  | _, _ =>
      match op with
      | .add => concatenated left right
      | .multiply =>
          match (repeated? left right).or (repeated? right left) with
          | some result => result
          | none => unsupported op left right
      | _ => unsupported op left right

def contains (depth : Nat) (container item : Value) : Action Bool :=
  match container with
  | .list ref => do anyEqual depth item (← observe fun heap => heap.list ref).toList
  | .tuple _ items => anyEqual depth item items
  | .str text =>
      match item with
      | .str part => return Text.occurs part.toList text.toList
      | other => typeError other .textMember
  | .dict ref => do
      let key ← keyOf item
      return (← observe fun heap => heap.dict ref).contains key
  | .range values =>
      match item.number? with
      | some (.int value) => return values.contains value
      | some (.float value) =>
          return Number.isIntegral value.toFloat &&
            values.contains (Int64.ofInt (Number.saturatedInteger value.toFloat))
      | none => return false
  | .iterator ref => do
      let left ← observe fun heap => (Walk.shared ref).left heap
      meets (fun candidate => ask fun heap => Query.equal heap depth candidate item) left
        (.shared ref)
  | other => typeError other .noMembers

/-- Whether an order is one of those that a comparison accepts. -/
def ordered (accepted : List Ordering) : Option Ordering → Bool
  | some order => accepted.contains order
  | none => false

def comparison (depth : Nat) (op : Comparison) (left right : Value) : Action Bool :=
  let order (accepted : List Ordering) : Action Bool := do
    return ordered accepted (← ask fun heap => Query.order heap depth op.spelling left right)
  match op with
  | .equal => ask fun heap => Query.equal heap depth left right
  | .notEqual => do return !(← ask fun heap => Query.equal heap depth left right)
  | .less => order [.lt]
  | .lessEqual => order [.lt, .eq]
  | .greater => order [.gt]
  | .greaterEqual => order [.gt, .eq]
  | .member => contains depth right left
  | .notMember => do return !(← contains depth right left)
  | .same => return left.same right
  | .notSame => return !(left.same right)

end Stepwise.Run
