import Stepwise.Run.Functions
import Stepwise.Text.Blank
import Stepwise.Text.Case
import Stepwise.Text.Search

/-!
The methods of lists, dicts and strings that call no function.
-/

namespace Stepwise.Run

open Stepwise.Run.Action

def noAttribute {α : Type} (object : Value) (name : String) : Action α := do
  throw (.attribute (← observe object.typeName) name)

/-- The position of the first of several values that passes a test. -/
def firstWhere? (test : Value → Heap → Query Bool) : Nat → List Value → Action (Option Nat)
  | _, [] => return none
  | position, value :: rest => do
      if ← ask (test value) then return some position
      else firstWhere? test (position + 1) rest

def countEqual (depth : Nat) (item : Value) : List Value → Action Nat
  | [] => return 0
  | value :: rest => do
      let here ← ask fun heap => Query.equal heap depth value item
      return (if here then 1 else 0) + (← countEqual depth item rest)

/-- Where an item is inserted: an index outside the list means its nearer end. -/
def insertPosition (index : Int) (length : Nat) : Nat :=
  if index < 0 then (index + length).toNat else min index.toNat length

def listMethod (depth : Nat) (ref : Nat) (method : String) (arguments : List Value) :
    Action Value := do
  let check (least most : Nat) : Action Unit :=
    argumentCount method arguments.length least (some most)
  let first := arguments.head?.getD .none
  let items ← observe fun heap => heap.list ref
  let length := items.size
  match method with
  | "append" => do
      check 1 1
      update fun heap => heap.modifyList ref fun items => items.push first
      return .none
  | "pop" => do
      check 0 1
      if length = 0 then throw (.index .emptyPop)
      let index ← match arguments with
        | [] => pure (-1)
        | index :: _ => integerArgument index
      let position ← itemAt (position? index length) .pop
      let item ← itemAt items[position]? .pop
      update fun heap => heap.modifyList ref fun items => items.eraseIdxIfInBounds position
      return item
  | "insert" => do
      check 2 2
      let index ← integerArgument first
      let value := arguments[1]?.getD .none
      update fun heap => heap.modifyList ref fun items =>
        items.insertIdxIfInBounds (insertPosition index.toInt items.size) value
      return .none
  | "extend" => do
      check 1 1
      let extra ← itemsOf first
      update fun heap => heap.modifyList ref fun items => items ++ extra.toArray
      return .none
  | "remove" => do
      check 1 1
      -- the list is already taken for the removal when its items are compared
      let found := fun value heap => Query.equalBeside heap ref depth value first
      match ← firstWhere? found 0 items.toList with
      | some position => do
          update fun heap => heap.modifyList ref fun items => items.eraseIdxIfInBounds position
          return .none
      | none => throw (.value .removedMissing)
  | "index" => do
      check 1 1
      let found := fun value heap => Query.equal heap depth value first
      match ← firstWhere? found 0 items.toList with
      | some position => return .int (Int64.ofNat position)
      | none => throw (.value (.notInList (← observe first.render)))
  | "count" => do
      check 1 1
      return .int (Int64.ofNat (← countEqual depth first items.toList))
  | "reverse" => do
      check 0 0
      update fun heap => heap.modifyList ref fun items => items.reverse
      return .none
  | "copy" => do
      check 0 0
      newList items.toList
  | "clear" => do
      check 0 0
      update fun heap => heap.modifyList ref fun _ => #[]
      return .none
  | _ => noAttribute (.list ref) method

def entryTuples : List (Key × Value) → Action (List Value)
  | [] => return []
  | (key, value) :: rest => do
      let key ← change key.toValue
      let entry ← newTuple [key, value]
      return entry :: (← entryTuples rest)

/-- A method of the dict `ref`. -/
def dictMethod (ref : Nat) (method : String) (arguments : List Value) (keywords : Keywords) :
    Action Value := do
  if method != "update" then noKeywords method keywords
  let check (least most : Nat) : Action Unit :=
    argumentCount method arguments.length least (some most)
  let first := arguments.head?.getD .none
  let dict ← observe fun heap => heap.dict ref
  match method with
  | "get" => do
      check 1 2
      let key ← keyOf first
      return ((dict.get? key).or arguments[1]?).getD .none
  | "keys" => do
      check 0 0
      newList (← change fun heap => keysToValues heap dict.keys)
  | "values" => do
      check 0 0
      newList dict.values
  | "items" => do
      check 0 0
      newList (← entryTuples dict.entries)
  | "pop" => do
      check 1 2
      let key ← keyOf first
      match dict.get? key, arguments[1]? with
      | some value, _ => do
          update fun heap => heap.modifyDict ref fun entries => entries.erase key
          return value
      | none, some default => return default
      | none, none => throw (.key (← observe first.render))
  | "update" => do
      check 0 1
      let entries ← match arguments with
        | [] => pure dict
        | source :: _ => updated dict source
      update fun heap => heap.modifyDict ref fun _ => withKeywords entries keywords
      return .none
  | "copy" => do
      check 0 0
      newDict dict
  | _ => noAttribute (.dict ref) method

def ofText (text : List Char) : Value := .str (String.ofList text)

def joinedTexts : Nat → List Value → Action (List (List Char))
  | _, [] => return []
  | position, .str content :: rest => do
      return content.toList :: (← joinedTexts (position + 1) rest)
  | position, other :: _ => typeError other (.joinedItem position)

def splitText (text : List Char) (separator : Option Value) (limit : Int) :
    Action (List (List Char)) :=
  let atBlanks := if limit < 0 then Text.words text else Text.wordsUpTo limit.toNat text
  match separator with
  | none => return atBlanks
  | some .none => return atBlanks
  | some separator => do
      let separator ← textArgument "split" separator
      if separator.isEmpty then throw (.value .emptySeparator)
      else if limit < 0 then return Text.split separator text
      else return Text.splitUpTo separator limit.toNat text

def strMethod (content : String) (method : String) (arguments : List Value) : Action Value := do
  let check (least most : Nat) : Action Unit :=
    argumentCount method arguments.length least (some most)
  let first := arguments.head?.getD .none
  let text := content.toList
  match method with
  | "upper" => do
      check 0 0
      return ofText (Text.upper text)
  | "lower" => do
      check 0 0
      return ofText (Text.lower text)
  | "strip" => do
      check 0 1
      if first.isNone then return ofText (Text.trim text)
      let characters ← textArgument method first
      return ofText (Text.trimWhere (fun c => characters.contains c) text)
  | "split" => do
      check 0 2
      let limit ← match arguments[1]? with
        | some limit => integerArgument limit
        | none => pure (-1)
      newList ((← splitText text arguments.head? limit.toInt).map ofText)
  | "join" => do
      check 1 1
      return ofText (Text.join text (← joinedTexts 0 (← itemsOf first)))
  | "replace" => do
      check 2 2
      let old ← textArgument method first
      let new ← textArgument method (arguments[1]?.getD .none)
      return ofText (Text.replace old new text)
  | "startswith" => do
      check 1 1
      return .bool ((← textArgument method first).isPrefixOf text)
  | "endswith" => do
      check 1 1
      return .bool ((← textArgument method first).isSuffixOf text)
  | "find" => do
      check 1 1
      match Text.find? (← textArgument method first) text with
      | some position => return .int (Int64.ofNat position)
      | none => return .int (-1)
  | "count" => do
      check 1 1
      return .int (Int64.ofNat (Text.count (← textArgument method first) text))
  | "isdigit" => do
      check 0 0
      return .bool (!text.isEmpty && text.all Text.isDigit)
  | _ => noAttribute (.str content) method

end Stepwise.Run
