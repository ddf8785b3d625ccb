import Stepwise.Run.Arguments
import Stepwise.Run.Arithmetic
import Stepwise.Run.Conversion
import Stepwise.Run.Operators
import Stepwise.Run.Subscript

/-!
The builtin functions that call no function themselves and print nothing.
-/

namespace Stepwise.Run

open Script Stepwise.Run.Action

/-- The arguments of a builtin that takes none by name, checked for their number. -/
def plainArguments (builtin : Builtin) (arguments : List Value) (keywords : Keywords)
    (least : Nat) (most : Option Nat) : Action Unit := do
  noKeywords builtin.name keywords
  argumentCount builtin.name arguments.length least most

def lengthOf (value : Value) : Action Value :=
  match value with
  | .str content => return .int (Int64.ofNat content.length)
  | .list ref => return .int (Int64.ofNat (← observe fun heap => (heap.list ref).size))
  | .tuple _ items => return .int (Int64.ofNat items.length)
  | .dict ref => return .int (Int64.ofNat (← observe fun heap => (heap.dict ref).size))
  | .range values =>
      match values.length? with
      | some length => return .int length
      | none => throw .overflow
  | other => typeError other .noLength

def rangeOf : List Int64 → Action Value
  | [stop] => return .range ⟨0, stop, 1⟩
  | [start, stop] => return .range ⟨start, stop, 1⟩
  | [start, stop, step] =>
      if step == 0 then throw (.value .zeroRangeStep) else return .range ⟨start, stop, step⟩
  | _ => return .range ⟨0, 0, 1⟩

def total (start : Value) (items : List Value) : Action Value := items.foldlM (binary .add) start

def toInt (arguments : List Value) (base : Option Value) : Action Value :=
  match arguments, base with
  | [], _ => return .int 0
  | .str content :: _, base => do
      let base ← match base with
        | some base => integerArgument base
        | none => pure 10
      match readInteger content.toList (strText content) base.toInt with
      | .ok value => return .int value
      | .error error => throw error
  | _ :: _, some _ => throw (.type .explicitBase)
  | value :: _, none =>
      match value.number? with
      | some (.int value) => return .int value
      | some (.float value) => numberValue (toInteger .towardZero value.toFloat)
      | none => typeError value (.notConvertible "int")

def toDouble : List Value → Action Value
  | [] => return .float (.ofFloat 0.0)
  | .str content :: _ =>
      match readDouble? content.toList with
      | some value => return .float value
      | none => throw (.value (.badFloatText (strText content)))
  | value :: _ =>
      match value.number? with
      | some number => return .float number.toDouble
      | none => typeError value (.notConvertible "float")

def updatePair (position : Nat) (element : Value) : Action (Value × Value) := fun heap =>
  match element.items? heap with
  | none => some (.error (.type (.updateElement position)), heap)
  | some ([key, value], heap) => some (.ok (key, value), heap)
  | some (items, heap) => some (.error (.value (.updateLength position items.length)), heap)

/-- A dict with the entries of pairs, from a position in their sequence on. -/
def updateWithPairs (entries : Dict Value) : Nat → List Value → Action (Dict Value)
  | _, [] => return entries
  | position, element :: rest => do
      let (key, value) ← updatePair position element
      updateWithPairs (entries.insert (← keyOf key) value) (position + 1) rest

/-- A dict with the entries of a value: those of a dict, or pairs. -/
def updated (entries : Dict Value) (source : Value) : Action (Dict Value) :=
  match source with
  | .dict ref => do
      let others ← observe fun heap => heap.dict ref
      return others.entries.foldl (fun entries entry => entries.insert entry.1 entry.2) entries
  | source => do updateWithPairs entries 0 (← itemsOf source)

def withKeywords (entries : Dict Value) (keywords : Keywords) : Dict Value :=
  keywords.foldl (fun entries keyword => entries.insert (.str keyword.1) keyword.2) entries

def reversedKind : Value → Action IteratorKind
  | .list _ => return .reversedList
  | .range _ => return .range
  | .tuple .. => return .reversed
  | .str _ => return .reversed
  | .dict _ => return .reversedDict
  | other => typeError other .notReversible

def numbered (start : Int) : List Value → Action (List Value)
  | [] => return []
  | item :: rest =>
      match Number.bounded? start with
      | none => throw .overflow
      | some number => do
          let pair ← newTuple [.int number, item]
          return pair :: (← numbered (start + 1) rest)

/-- Tuples of the items at the same place of several columns, as many as the shortest has. -/
def zipped (columns : List (List Value)) : Action (List Value) :=
  match columns.map List.length with
  | [] => return []
  | first :: rest =>
      (List.range (rest.foldl min first)).mapM fun i =>
        newTuple (columns.filterMap fun column => column[i]?)

def nextOf (iterator : Value) (default : Option Value) : Action Value :=
  match iterator with
  | .iterator ref => do
      match ← next (.shared ref), default with
      | some (item, _), _ => return item
      | none, some default => return default
      | none, none => throw .stopIteration
  | other => typeError other .notIterator

def codePoint (value : Value) : Action Value :=
  match value with
  | .str content =>
      match content.toList with
      | [c] => return .int (Int64.ofNat c.toNat)
      | characters => throw (.type (.notOneCharacter characters.length))
  | other => typeError other .notCharacter

def ofCodePoint (code : Int) : Action Value :=
  if 0 ≤ code ∧ code.toNat.isValidChar then return ofChar (Char.ofNat code.toNat)
  else throw (.value .badCodePoint)

def roundingPlaces (places : Option Value) : Action (Option Int64) :=
  match places with
  | none => return none
  | some .none => return none
  | some value => some <$> integerArgument value

/-- Whether some item is true, or with `want` unset, whether some item is not. -/
def meetsTruth (want : Bool) (value : Value) : Action Bool := do
  let walk ← walk value
  meets (fun item => return (← observe item.truthy) == want) (← observe fun heap => walk.left heap)
    walk

/-- The result of a builtin function; those that print or call back have none here. -/
def applyPlain (builtin : Builtin) (arguments : List Value) (keywords : Keywords) :
    Action Value := do
  let check (least : Nat) (most : Nat) : Action Unit :=
    plainArguments builtin arguments keywords least (some most)
  let first := arguments.head?.getD .none
  match builtin with
  | .len => do
      check 1 1
      lengthOf first
  | .range => do
      check 1 3
      rangeOf (← arguments.mapM integerArgument)
  | .abs => do
      check 1 1
      match first.number? with
      | some number => numberValue (absolute number)
      | none => typeError first .magnitude
  | .sum => do
      let (start, keywords) := takeKeyword "start" keywords
      plainArguments builtin arguments keywords 1 (some 2)
      match start.or arguments[1]? with
      | some (.str _) => throw (.type .sumsText)
      | start => total (start.getD (.int 0)) (← itemsOf first)
  | .str => do
      check 0 1
      match arguments with
      | [] => return .str ""
      | value :: _ => return .str (← observe value.display)
  | .int => do
      let (base, keywords) := takeKeyword "base" keywords
      plainArguments builtin arguments keywords 0 (some 2)
      toInt arguments (base.or arguments[1]?)
  | .float => do
      check 0 1
      toDouble arguments
  | .bool => do
      check 0 1
      match arguments with
      | [] => return .bool false
      | value :: _ => return .bool (← observe value.truthy)
  | .list => do
      check 0 1
      match arguments with
      | [] => newList []
      | value :: _ => newList (← itemsOf value)
  | .tuple => do
      check 0 1
      match arguments with
      | [] => newTuple []
      | .tuple tag items :: _ => return .tuple tag items
      | value :: _ => newTuple (← itemsOf value)
  | .dict => do
      argumentCount builtin.name arguments.length 0 (some 1)
      let entries ← match arguments with
        | [] => pure Dict.empty
        | source :: _ => updated .empty source
      newDict (withKeywords entries keywords)
  | .reversed => do
      check 1 1
      let kind ← reversedKind first
      newIterator kind (← itemsOf first).reverse
  | .enumerate => do
      let (start, keywords) := takeKeyword "start" keywords
      plainArguments builtin arguments keywords 1 (some 2)
      let start ← match start.or arguments[1]? with
        | some start => integerArgument start
        | none => pure 0
      newIterator .enumerate (← numbered start.toInt (← itemsOf first))
  | .zip => do
      noKeywords builtin.name keywords
      newIterator .zip (← zipped (← arguments.mapM itemsOf))
  | .round => do
      let (places, keywords) := takeKeyword "ndigits" keywords
      plainArguments builtin arguments keywords 1 (some 2)
      let places ← roundingPlaces (places.or arguments[1]?)
      match first.number? with
      | some number => numberValue (rounded number places)
      | none => typeError first .noRounding
  | .iter => do
      check 1 1
      let walk ← walk first
      change walk.toValue
  | .next => do
      check 1 2
      nextOf first arguments[1]?
  | .repr => do
      check 1 1
      return .str (← observe first.render)
  | .ord => do
      check 1 1
      codePoint first
  | .chr => do
      check 1 1
      ofCodePoint (← integerArgument first).toInt
  | .any => do
      check 1 1
      return .bool (← meetsTruth true first)
  | .all => do
      check 1 1
      return .bool !(← meetsTruth false first)
  | _ => return .none

end Stepwise.Run
