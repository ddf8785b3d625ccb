import Stepwise.Run.Machine
import Stepwise.Run.Methods
import Stepwise.Run.Sorting

/-!
The builtin functions and methods that call a function of the script or print.
-/

namespace Stepwise.Run

open Effect

variable {σ : Type}

abbrev Caller (σ : Type) := Value → List Value → Keywords → Effect σ Value

/-- The first argument of a name unless it is the absent value, and the other arguments. -/
def takeKey (keywords : Keywords) : Option Value × Keywords :=
  let (key, keywords) := takeKeyword "key" keywords
  (key.filter fun key => !key.isNone, keywords)

/-- An item with its score: what the key function makes of it, or the item itself. -/
def scored (call : Caller σ) (key : Option Value) (item : Value) : Effect σ Scored := do
  match key with
  | some key => return ⟨← call key [item] [], item⟩
  | none => return ⟨item, item⟩

def scoredAll (call : Caller σ) (key : Option Value) : List Value → Effect σ (List Scored)
  | [] => return []
  | item :: rest => do
      let entry ← scored call key item
      return entry :: (← scoredAll call key rest)

def scoreLess (depth : Nat) (a b : Scored) : Effect σ Bool :=
  onHeap (Action.ask fun heap => Query.less heap depth a.score b.score)

/-- The first of the best entries: the least ones, or with `largest` the greatest ones.  Every item is
scored right before it is compared. -/
def bestOf (call : Caller σ) (depth : Nat) (largest : Bool) (key : Option Value) :
    Option Scored → List Value → Effect σ (Option Scored)
  | best, [] => return best
  | none, item :: rest => do
      let entry ← scored call key item
      bestOf call depth largest key (some entry) rest
  | some best, item :: rest => do
      let entry ← scored call key item
      let better ← if largest then scoreLess depth best entry else scoreLess depth entry best
      bestOf call depth largest key (some (if better then entry else best)) rest

/-- The least or the greatest of several values, or of the items of a single one. -/
def extreme (call : Caller σ) (depth : Nat) (largest : Bool) (arguments : List Value)
    (keywords : Keywords) : Effect σ Value := do
  let name := if largest then Builtin.max.name else Builtin.min.name
  let (key, keywords) := takeKey keywords
  let (default, keywords) := takeKeyword "default" keywords
  onHeap (noKeywords name keywords)
  onHeap (argumentCount name arguments.length 1 none)
  let items ← match arguments with
    | [value] => onHeap (Action.itemsOf value)
    | values => pure values
  match ← bestOf call depth largest key none items, default with
  | some best, _ => return best.item
  | none, some default => return default
  | none, none => throw (.value (.emptyIterable name))

def sortedItems (call : Caller σ) (depth : Nat) (key reverse : Option Value)
    (items : List Value) : Effect σ (List Value) := do
  let descending ← match reverse with
    | some reverse => view reverse.truthy
    | none => pure false
  let entries ← scoredAll call key items
  let entries ← onHeap (Action.ask fun heap => Scored.sort heap depth descending entries)
  return entries.map Scored.item

def sortedList (call : Caller σ) (depth : Nat) (arguments : List Value) (keywords : Keywords) :
    Effect σ Value := do
  let (key, keywords) := takeKey keywords
  let (reverse, keywords) := takeKeyword "reverse" keywords
  onHeap (plainArguments .sorted arguments keywords 1 (some 1))
  let items ← onHeap (Action.itemsOf (arguments.head?.getD .none))
  onHeap (Action.newList (← sortedItems call depth key reverse items))

/-- Puts a list in order.  The list stays as it is until all scores are known. -/
def sortList (call : Caller σ) (depth : Nat) (ref : Nat) (arguments : List Value)
    (keywords : Keywords) : Effect σ Value := do
  let (key, keywords) := takeKey keywords
  let (reverse, keywords) := takeKeyword "reverse" keywords
  onHeap (noKeywords "sort" keywords)
  onHeap (argumentCount "sort" arguments.length 0 (some 0))
  let items ← view fun heap => (heap.list ref).toList
  let items ← sortedItems call depth key reverse items
  onHeap (Action.update fun heap => heap.modifyList ref fun _ => items.toArray)
  return .none

/-- The text that an optional argument is; the absent value stands for the default. -/
def optionalText (parameter default : String) (argument : Option Value) : Action String :=
  match argument with
  | none => return default
  | some .none => return default
  | some (.str content) => return content
  | some other => Action.typeError other (.notOptionalText parameter)

def printed (arguments : List Value) (keywords : Keywords) : Effect σ Value := do
  let (separator, keywords) := takeKeyword "sep" keywords
  let separator ← onHeap (optionalText "sep" " " separator)
  let (ending, keywords) := takeKeyword "end" keywords
  let ending ← onHeap (optionalText "end" "\n" ending)
  onHeap (noKeywords Builtin.print.name keywords)
  let texts ← view fun heap => arguments.map (Value.display heap)
  write (separator.intercalate texts ++ ending)
  return .none

def applyBuiltin (call : Caller σ) (depth : Nat) (builtin : Builtin) (arguments : List Value)
    (keywords : Keywords) : Effect σ Value :=
  match builtin with
  | .print => printed arguments keywords
  | .min => extreme call depth false arguments keywords
  | .max => extreme call depth true arguments keywords
  | .sorted => sortedList call depth arguments keywords
  | builtin => onHeap (applyPlain builtin arguments keywords)

def applyMethod (call : Caller σ) (depth : Nat) (object : Value) (method : String)
    (arguments : List Value) (keywords : Keywords) : Effect σ Value :=
  match object with
  | .list ref =>
      if method == "sort" then sortList call depth ref arguments keywords
      else onHeap do
        noKeywords method keywords
        listMethod depth ref method arguments
  | .dict ref => onHeap (dictMethod ref method arguments keywords)
  | .str content => onHeap do
      noKeywords method keywords
      strMethod content method arguments
  | other => onHeap (noAttribute other method)

end Stepwise.Run
