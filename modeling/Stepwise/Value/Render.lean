import Stepwise.Number.Layout
import Stepwise.Text.Quoted
import Stepwise.Value.Basic

/-!
The text of values.

A container inside itself is written as dots between its brackets, and so is, without brackets, a
container that is nested too deep.
-/

namespace Stepwise

def renderDepth : Nat := 512

/-- A list or dict that is being written. -/
inductive Open where
  | list (ref : Nat)
  | dict (ref : Nat)
  deriving Repr, DecidableEq

def commaSeparated (parts : List String) : String := ", ".intercalate parts

/-- The text of a tuple; a single item is followed by a comma. -/
def tupleText (parts : List String) : String :=
  match parts with
  | [one] => "(" ++ one ++ ",)"
  | parts => "(" ++ commaSeparated parts ++ ")"

def boolText (value : Bool) : String := if value then "True" else "False"

def strText (content : String) : String := String.ofList (Text.quoted content.toList)

/-- The text of a key with tuples nested at most `depth` deep. -/
def Key.render : Nat → Key → String
  | _, .none => "None"
  | _, .bool value => boolText value
  | _, .int value => Number.integerText value.toInt
  | _, .float value => Number.Layout.script.text value.toFloat
  | _, .str content => strText content
  | 0, .tuple _ => "..."
  | depth + 1, .tuple items => tupleText (items.map (Key.render depth))

namespace Value

/-- The text of a value with containers nested at most `depth` deep, inside the containers of
`active`. -/
def renderIn (heap : Heap) : Nat → List Open → Value → String
  | _, _, .none => "None"
  | _, _, .bool value => boolText value
  | _, _, .int value => Number.integerText value.toInt
  | _, _, .float value => Number.Layout.script.text value.toFloat
  | _, _, .str content => strText content
  | _, _, .function ref => "<function " ++ (heap.function ref).name ++ ">"
  | _, _, .builtin named => "<built-in function " ++ named.name ++ ">"
  | _, _, .range progression => progression.text
  | _, _, .iterator ref => "<" ++ (heap.iterator ref).kind.typeName ++ " object>"
  | 0, _, _ => "..."
  | depth + 1, active, .tuple _ items => tupleText (items.map (renderIn heap depth active))
  | depth + 1, active, .list ref =>
      if active.contains (.list ref) then "[...]"
      else
        let items := (heap.list ref).toList.map (renderIn heap depth (.list ref :: active))
        "[" ++ commaSeparated items ++ "]"
  | depth + 1, active, .dict ref =>
      if active.contains (.dict ref) then "\x7b...\x7d"
      else
        let entries := (heap.dict ref).entries.map fun entry =>
          entry.1.render depth ++ ": " ++ renderIn heap depth (.dict ref :: active) entry.2
        "\x7b" ++ commaSeparated entries ++ "\x7d"

/-- The text of a value with containers nested at most `depth` deep. -/
def renderTo (heap : Heap) (depth : Nat) (value : Value) : String := value.renderIn heap depth []

/-- The text that stands for a value. -/
def render (heap : Heap) (value : Value) : String := value.renderTo heap renderDepth

/-- The text that a value is printed as: a string without its quotes. -/
def display (heap : Heap) : Value → String
  | .str content => content
  | value => value.render heap

end Value

end Stepwise
