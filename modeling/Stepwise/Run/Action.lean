import Stepwise.Run.Error
import Stepwise.Value.Compare
import Stepwise.Value.Iteration
import Stepwise.Value.Render

/-!
Steps that read and change the heap and may fail.

A `Query` only answers a question about values.  Both give no answer at all if values are compared
deeper than the depth they were given, or if the program breaks off.
-/

namespace Stepwise.Run

abbrev Query := ExceptT RuntimeError Option

/-- A step on the heap; after an error the heap is what the step had made of it. -/
abbrev Action := ExceptT RuntimeError (StateT Heap Option)

namespace Query

def ofAnswer {α : Type} (answer : Option α) : Query α := ExceptT.mk (answer.map .ok)

def equal (heap : Heap) (depth : Nat) (a b : Value) : Query Bool :=
  ofAnswer (Value.equal heap depth a b)

def equalBeside (heap : Heap) (held depth : Nat) (a b : Value) : Query Bool :=
  ofAnswer (Value.equalBeside heap held depth a b)

/-- The order of two values, asked for by the operator `op`. -/
def order (heap : Heap) (depth : Nat) (op : String) (a b : Value) : Query (Option Ordering) := do
  match ← ofAnswer (Value.order heap depth a b) with
  | .ok order => return order
  | .error (x, y) => throw (.type (.order op (x.typeName heap) (y.typeName heap)))

def less (heap : Heap) (depth : Nat) (a b : Value) : Query Bool :=
  return (← order heap depth "<" a b) == some .lt

end Query

namespace Action

def ask {α : Type} (query : Heap → Query α) : Action α := fun heap =>
  (query heap).run.map fun answer => (answer, heap)

def observe {α : Type} (view : Heap → α) : Action α := fun heap => some (.ok (view heap), heap)

def change {α : Type} (step : Heap → α × Heap) : Action α := fun heap =>
  let (result, heap) := step heap
  some (.ok result, heap)

def update (step : Heap → Heap) : Action Unit := fun heap => some (.ok (), step heap)

/-- The end of a program that breaks off.  It is no error, and nothing is left to go on from. -/
def broken {α : Type} : Action α := fun _ => none

/-- Fails with a type problem about the type of a value. -/
def typeError {α : Type} (value : Value) (problem : String → TypeProblem) : Action α := do
  throw (.type (problem (← observe value.typeName)))

def newList (items : List Value) : Action Value := change fun heap => heap.newList items.toArray

def newTuple (items : List Value) : Action Value := change fun heap => heap.newTuple items

def newDict (entries : Dict Value) : Action Value := change fun heap => heap.newDict entries

def newIterator (kind : IteratorKind) (items : List Value) : Action Value :=
  change fun heap => heap.newIterator ⟨kind, .items items⟩

def keyOf (value : Value) : Action Key :=
  match value.toKey with
  | .ok key => return key
  | .error part => typeError part .unhashable

def walk (value : Value) : Action Walk := fun heap =>
  match value.walk? heap with
  | some (walk, heap) => some (.ok walk, heap)
  | none => typeError value .notIterable heap

def next (walk : Walk) : Action (Option (Value × Walk)) := fun heap =>
  match walk.next? heap with
  | some (item, walk, heap) => some (.ok (some (item, walk)), heap)
  | none => some (.ok none, heap)

def itemsOf (value : Value) : Action (List Value) := fun heap =>
  match value.items? heap with
  | some (items, heap) => some (.ok items, heap)
  | none => typeError value .notIterable heap

/-- Whether a walk meets an item that passes a test.  It stops behind the first one; `left` is at
least the number of items left. -/
def meets (test : Value → Action Bool) : Nat → Walk → Action Bool
  | 0, _ => return false
  | left + 1, walk => do
      match ← next walk with
      | none => return false
      | some (item, walk) =>
          if ← test item then return true else meets test left walk

def anyEqual (depth : Nat) (item : Value) : List Value → Action Bool
  | [] => return false
  | value :: rest => do
      if ← ask fun heap => Query.equal heap depth value item then return true
      else anyEqual depth item rest

end Action

end Stepwise.Run
