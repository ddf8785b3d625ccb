import Stepwise.Value.Dict
import Stepwise.Value.Range

/-!
The values of a script and the heap that holds what can change.

Lists, dicts and iterators are shared: a value refers to them by a number, and so do function
objects.  A tuple carries its items, and a tag that tells two tuples with the same items apart.
-/

namespace Stepwise

/-- The functions that every script can call. -/
inductive Builtin where
  | print | len | range | abs | min | max | sum | str | int | float | bool | list | tuple | dict
  | sorted | reversed | enumerate | zip | round | iter | next | repr | ord | chr | any | all
  deriving Repr, DecidableEq

namespace Builtin

def every : List Builtin :=
  [.print, .len, .range, .abs, .min, .max, .sum, .str, .int, .float, .bool, .list, .tuple, .dict,
    .sorted, .reversed, .enumerate, .zip, .round, .iter, .next, .repr, .ord, .chr, .any, .all]

def name : Builtin → String
  | .print => "print"
  | .len => "len"
  | .range => "range"
  | .abs => "abs"
  | .min => "min"
  | .max => "max"
  | .sum => "sum"
  | .str => "str"
  | .int => "int"
  | .float => "float"
  | .bool => "bool"
  | .list => "list"
  | .tuple => "tuple"
  | .dict => "dict"
  | .sorted => "sorted"
  | .reversed => "reversed"
  | .enumerate => "enumerate"
  | .zip => "zip"
  | .round => "round"
  | .iter => "iter"
  | .next => "next"
  | .repr => "repr"
  | .ord => "ord"
  | .chr => "chr"
  | .any => "any"
  | .all => "all"

def ofName? (name : String) : Option Builtin :=
  every.find? fun builtin => builtin.name == name

end Builtin

/-- The values of a script. -/
inductive Value where
  | none
  | bool (value : Bool)
  | int (value : Int64)
  | float (value : Number.Double)
  | str (content : String)
  | list (ref : Nat)
  | tuple (tag : Nat) (items : List Value)
  | dict (ref : Nat)
  | function (ref : Nat)
  | builtin (builtin : Builtin)
  | range (range : Range)
  | iterator (ref : Nat)

/-- A function that a script defined. -/
structure FunctionObject where
  /-- The namespace that the function belongs to. -/
  home : Nat
  /-- Its number among the functions of its program. -/
  id : Nat
  name : String
  /-- The defaults of the last parameters, as many as have one. -/
  defaults : List Value

inductive IteratorKind where
  | list | tuple | str | dict | range | reversedList | reversed | reversedDict | enumerate | zip
  deriving Repr, DecidableEq

def IteratorKind.typeName : IteratorKind → String
  | .list => "list_iterator"
  | .tuple => "tuple_iterator"
  | .str => "str_iterator"
  | .dict => "dict_keyiterator"
  | .range => "range_iterator"
  | .reversedList => "list_reverseiterator"
  | .reversed => "reversed"
  | .reversedDict => "dict_reversekeyiterator"
  | .enumerate => "enumerate"
  | .zip => "zip"

inductive Source where
  /-- Items fixed when the iterator was made. -/
  | items (rest : List Value)
  /-- A list that may still change, walked by position. -/
  | list (ref : Nat) (index : Nat)
  | range (next : Int64) (remaining : Nat) (step : Int64)

structure Iterator where
  kind : IteratorKind
  source : Source

/-- The mutable state that values refer to. -/
structure Heap where
  lists : Array (Array Value)
  dicts : Array (Dict Value)
  iterators : Array Iterator
  functions : Array FunctionObject
  /-- The tag of the next tuple. -/
  nextTag : Nat

namespace Heap

def empty : Heap := ⟨#[], #[], #[], #[], 0⟩

def list (heap : Heap) (ref : Nat) : Array Value := (heap.lists[ref]?).getD #[]

def dict (heap : Heap) (ref : Nat) : Dict Value := (heap.dicts[ref]?).getD .empty

/-- An iterator; one that is not on the heap has no items. -/
def iterator (heap : Heap) (ref : Nat) : Iterator :=
  (heap.iterators[ref]?).getD ⟨.list, .items []⟩

/-- A function object; one that is not on the heap has an empty name. -/
def function (heap : Heap) (ref : Nat) : FunctionObject :=
  (heap.functions[ref]?).getD ⟨0, 0, "", []⟩

def modifyList (heap : Heap) (ref : Nat) (change : Array Value → Array Value) : Heap :=
  { heap with lists := heap.lists.modify ref change }

def modifyDict (heap : Heap) (ref : Nat) (change : Dict Value → Dict Value) : Heap :=
  { heap with dicts := heap.dicts.modify ref change }

def setIterator (heap : Heap) (ref : Nat) (iterator : Iterator) : Heap :=
  { heap with iterators := heap.iterators.setIfInBounds ref iterator }

def newList (heap : Heap) (items : Array Value) : Value × Heap :=
  (.list heap.lists.size, { heap with lists := heap.lists.push items })

theorem list_newList (heap : Heap) (items : Array Value) :
    (heap.newList items).2.list heap.lists.size = items := by
  simp [newList, list]

def newDict (heap : Heap) (entries : Dict Value) : Value × Heap :=
  (.dict heap.dicts.size, { heap with dicts := heap.dicts.push entries })

def newIterator (heap : Heap) (iterator : Iterator) : Value × Heap :=
  (.iterator heap.iterators.size, { heap with iterators := heap.iterators.push iterator })

def newFunction (heap : Heap) (function : FunctionObject) : Value × Heap :=
  (.function heap.functions.size, { heap with functions := heap.functions.push function })

def newTuple (heap : Heap) (items : List Value) : Value × Heap :=
  (.tuple heap.nextTag items, { heap with nextTag := heap.nextTag + 1 })

end Heap

namespace Value

def typeName (heap : Heap) : Value → String
  | .none => "NoneType"
  | .bool _ => "bool"
  | .int _ => "int"
  | .float _ => "float"
  | .str _ => "str"
  | .list _ => "list"
  | .tuple .. => "tuple"
  | .dict _ => "dict"
  | .function _ => "function"
  | .builtin _ => "builtin_function_or_method"
  | .range _ => "range"
  | .iterator ref => (heap.iterator ref).kind.typeName

def isCallable : Value → Bool
  | .function _ => true
  | .builtin _ => true
  | _ => false

def isNone : Value → Bool
  | .none => true
  | _ => false

/-- Whether a value counts as true: zeros and what is empty do not. -/
def truthy (heap : Heap) : Value → Bool
  | .none => false
  | .bool value => value
  | .int value => value != 0
  | .float value => value.toFloat != 0.0
  | .str content => !content.isEmpty
  | .list ref => !(heap.list ref).isEmpty
  | .tuple _ items => !items.isEmpty
  | .dict ref => (heap.dict ref).size != 0
  | .range progression => !progression.isEmpty
  | .function _ => true
  | .builtin _ => true
  | .iterator _ => true

/-- The number that a value is, if it is one; truth values count as integers. -/
def number? : Value → Option Number
  | .bool value => some (.int (Key.ofBool value))
  | .int value => some (.int value)
  | .float value => some (.float value)
  | _ => Option.none

/-- The integer that a value is, if it is one; truth values count as integers. -/
def index? : Value → Option Int64
  | .bool value => some (Key.ofBool value)
  | .int value => some value
  | _ => Option.none

mutual

/-- The key that a value is, or the value in it that cannot be one. -/
def toKey : Value → Except Value Key
  | .none => .ok .none
  | .bool value => .ok (.bool value)
  | .int value => .ok (.int value)
  | .float value => .ok (.float value)
  | .str content => .ok (.str content)
  | .tuple _ items => do return .tuple (← toKeys items)
  | value => .error value

def toKeys : List Value → Except Value (List Key)
  | [] => .ok []
  | item :: rest => do return (← item.toKey) :: (← toKeys rest)

end

end Value

mutual

/-- The value that a key was made from.  Its tuples are new ones. -/
def Key.toValue (heap : Heap) : Key → Value × Heap
  | .none => (.none, heap)
  | .bool value => (.bool value, heap)
  | .int value => (.int value, heap)
  | .float value => (.float value, heap)
  | .str content => (.str content, heap)
  | .tuple items =>
      let (values, heap) := keysToValues heap items
      heap.newTuple values

def keysToValues (heap : Heap) : List Key → List Value × Heap
  | [] => ([], heap)
  | key :: rest =>
      let (value, heap) := key.toValue heap
      let (values, heap) := keysToValues heap rest
      (value :: values, heap)

end

end Stepwise
