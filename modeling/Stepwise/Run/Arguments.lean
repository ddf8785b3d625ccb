import Stepwise.Run.Action
import Stepwise.Script.Tree

/-!
The arguments of calls.
-/

namespace Stepwise.Run

open Script Stepwise.Run.Action

abbrev Keywords := List (String × Value)

def takeKeyword (name : String) (keywords : Keywords) : Option Value × Keywords :=
  (keywords.lookup name, keywords.eraseP fun keyword => keyword.1 == name)

def noKeywords (function : String) : Keywords → Action Unit
  | [] => return ()
  | (name, _) :: _ => throw (.type (.unexpectedKeyword function name))

/-- Fails unless the number of arguments is between two bounds. -/
def argumentCount (function : String) (given least : Nat) (most : Option Nat) : Action Unit :=
  if least ≤ given ∧ most.all (given ≤ ·) then return ()
  else throw (.type (.argumentCount function least most given))

def integerArgument (value : Value) : Action Int64 :=
  match value.index? with
  | some i => return i
  | none => typeError value .notInteger

def textArgument (function : String) (value : Value) : Action (List Char) :=
  match value with
  | .str content => return content.toList
  | other => typeError other (.notText function)

/-- The slots of the parameters filled with positional arguments, followed by empty ones. -/
def positionalSlots (slots : Nat) (arguments : List Value) : Array (Option Value) :=
  ((arguments.take slots).map some ++ List.replicate (slots - arguments.length) none).toArray

def setKeyword (definition : Definition) (slots : Array (Option Value))
    (keyword : String × Value) : Except TypeProblem (Array (Option Value)) :=
  match definition.parameters.findIdx? fun parameter => parameter.name == keyword.1 with
  | none => .error (.unexpectedKeyword definition.name keyword.1)
  | some index =>
      match slots[index]? with
      | some (some _) => .error (.repeatedArgument definition.name keyword.1)
      | _ => .ok (slots.setIfInBounds index (some keyword.2))

/-- The slots with the defaults of the parameters that have no argument.  `required` parameters come
before the first one with a default. -/
def fillDefaults (required : Nat) (defaults : List Value) (parameters : Nat)
    (slots : Array (Option Value)) : Array (Option Value) :=
  (List.range parameters).foldl
    (fun slots index =>
      match slots[index]? with
      | some none =>
          if required ≤ index then slots.setIfInBounds index defaults[index - required]? else slots
      | _ => slots)
    slots

def missingNames (definition : Definition) (required : Nat) (slots : Array (Option Value)) :
    List String :=
  ((definition.parameters.take required).zipIdx.filter fun parameter =>
    match slots[parameter.2]? with
    | some (some _) => false
    | _ => true).map fun parameter => parameter.1.name

/-- The slots of a frame in which the parameters have their arguments. -/
def bindArguments (definition : Definition) (defaults : List Value) (arguments : List Value)
    (keywords : Keywords) : Except TypeProblem (Array (Option Value)) := do
  let parameters := definition.parameters.length
  let required := parameters - defaults.length
  if parameters < arguments.length then
    throw (.tooManyArguments definition.name required parameters arguments.length)
  let slots ← keywords.foldlM (setKeyword definition)
    (positionalSlots definition.locals.length arguments)
  match missingNames definition required slots with
  | [] => return fillDefaults required defaults parameters slots
  | names => throw (.missingArguments definition.name names)

end Stepwise.Run
