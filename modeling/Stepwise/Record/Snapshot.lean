import Stepwise.Json.Basic
import Stepwise.Value.Render

/-!
Copies of values that later changes do not reach.

Values without a data form, containers inside themselves and containers that are nested too deep are
not copied.  `captureOrText` records their text instead.
-/

namespace Stepwise.Record

/-- A copy of a value. -/
inductive Snapshot where
  | none
  | bool (value : Bool)
  | int (value : Int64)
  | float (value : Float)
  | str (content : String)
  | list (items : List Snapshot)
  | tuple (items : List Snapshot)
  /-- Entries in the order of the dict. -/
  | dict (entries : List (Snapshot × Snapshot))
  /-- The text of a value that could not be copied. -/
  | text (content : String)

namespace Snapshot

mutual

/-- The text of a snapshot as a script writes it. -/
def render : Snapshot → String
  | .none => "None"
  | .bool value => boolText value
  | .int value => Number.integerText value.toInt
  | .float value => Number.Layout.script.text value
  | .str content => strText content
  | .text content => content
  | .list items => "[" ++ commaSeparated (renderAll items) ++ "]"
  | .tuple items => tupleText (renderAll items)
  | .dict entries => "\x7b" ++ commaSeparated (renderEntries entries) ++ "\x7d"

def renderAll : List Snapshot → List String
  | [] => []
  | item :: rest => item.render :: renderAll rest

def renderEntries : List (Snapshot × Snapshot) → List String
  | [] => []
  | (key, value) :: rest => (key.render ++ ": " ++ value.render) :: renderEntries rest

end

def keyText : Snapshot → String
  | .none => "null"
  | .bool value => if value then "true" else "false"
  | .int value => Number.integerText value.toInt
  | .float value => Number.Layout.script.text value
  | .str content => content
  | .text content => content
  | other => other.render

mutual

/-- A snapshot as an interchange value.  Tuples become arrays, dicts become objects, and doubles that
are not finite become null. -/
def toJson : Snapshot → Json
  | .none => .null
  | .bool value => .bool value
  | .int value => .int value.toInt
  | .float value => if value.isFinite then .float value else .null
  | .str content => .str content
  | .text content => .str content
  | .list items => .array (itemsToJson items)
  | .tuple items => .array (itemsToJson items)
  | .dict entries => .object (entriesToJson entries)

def itemsToJson : List Snapshot → List Json
  | [] => []
  | item :: rest => item.toJson :: itemsToJson rest

def entriesToJson : List (Snapshot × Snapshot) → List (String × Json)
  | [] => []
  | (key, value) :: rest => (key.keyText, value.toJson) :: entriesToJson rest

end

end Snapshot

inductive CaptureError where
  | opaqueType (typeName : String)
  | cycle
  | tooDeep (limit : Nat)
  deriving Repr, DecidableEq

def CaptureError.kind : CaptureError → String
  | .opaqueType _ => "Opaque"
  | .cycle => "Cycle"
  | .tooDeep _ => "TooDeep"

def CaptureError.message : CaptureError → String
  | .opaqueType typeName => s!"'{typeName}' objects have no data form"
  | .cycle => "container refers to itself"
  | .tooDeep limit => s!"nesting exceeds {Number.integerText limit} levels"

/-- The copy of a key that may nest less than `levels` deep. -/
def captureKey (limit : Nat) : Nat → Key → Except CaptureError Snapshot
  | 0, _ => .error (.tooDeep limit)
  | _ + 1, .none => .ok .none
  | _ + 1, .bool value => .ok (.bool value)
  | _ + 1, .int value => .ok (.int value)
  | _ + 1, .float value => .ok (.float value.toFloat)
  | _ + 1, .str content => .ok (.str content)
  | levels + 1, .tuple items => do return .tuple (← items.mapM (captureKey limit levels))

/-- The copy of a value that may nest less than `levels` deep, inside the containers of `active`. -/
def captureIn (heap : Heap) (limit : Nat) :
    Nat → List Open → Value → Except CaptureError Snapshot
  | 0, _, _ => .error (.tooDeep limit)
  | _ + 1, _, .none => .ok .none
  | _ + 1, _, .bool value => .ok (.bool value)
  | _ + 1, _, .int value => .ok (.int value)
  | _ + 1, _, .float value => .ok (.float value.toFloat)
  | _ + 1, _, .str content => .ok (.str content)
  | levels + 1, active, .tuple _ items => do
      return .tuple (← items.mapM (captureIn heap limit levels active))
  | levels + 1, active, .list ref => do
      if active.contains (.list ref) then throw .cycle
      return .list (← (heap.list ref).toList.mapM (captureIn heap limit levels (.list ref :: active)))
  | levels + 1, active, .dict ref => do
      if active.contains (.dict ref) then throw .cycle
      return .dict (← (heap.dict ref).entries.mapM fun entry => do
        let key ← captureKey limit levels entry.1
        return (key, ← captureIn heap limit levels (.dict ref :: active) entry.2))
  | _ + 1, _, other => .error (.opaqueType (other.typeName heap))

/-- The depth of copies unless another one is asked for. -/
def standardDepth : Nat := 256

/-- The copy of a value with containers nested at most `depth` deep. -/
def capture (heap : Heap) (depth : Nat) (value : Value) : Except CaptureError Snapshot :=
  captureIn heap depth (depth + 1) [] value

/-- The copy of a value, or its text if it cannot be copied. -/
def captureOrText (heap : Heap) (depth : Nat) (value : Value) : Snapshot :=
  match capture heap depth value with
  | .ok snapshot => snapshot
  | .error _ => .text (value.renderTo heap depth)

def captureBindings (heap : Heap) (depth : Nat) (bindings : List (String × Value)) :
    List (String × Snapshot) :=
  bindings.map fun binding => (binding.1, captureOrText heap depth binding.2)

end Stepwise.Record
