import Stepwise.Run.Machine

/-!
Reading and writing names.

A name means the innermost comprehension variable of that name; then, inside a function that has a
local of that name, only this local; then a global; then a builtin function.
-/

namespace Stepwise.Run

open Script

def Activation.position? (activation : Activation) (name : String) : Option Nat :=
  activation.definition.locals.idxOf? name

/-- The position of a name among the locals of the function that a frame belongs to. -/
def Frame.local? (frame : Frame) (name : String) : Option (Activation × Nat) :=
  frame.activation.bind fun activation =>
    (activation.position? name).map fun position => (activation, position)

/-- The value that a frame and the globals bind to a name. -/
def bindingOf? (frame : Frame) (globals : Bindings) (name : String) : Option Value :=
  match frame.scopes.findSome? fun scope => scope.get? name with
  | some value => some value
  | none =>
      match frame.local? name with
      | some (activation, position) => activation.slots[position]?.join
      | none => globals.get? name

namespace Effect

variable {σ : Type}

def binding? (name : String) : Effect σ (Option Value) := fun machine =>
  some (.ok (bindingOf? machine.frame machine.globals name), machine)

def load (name : String) : Effect σ Value := do
  match ← binding? name with
  | some value => return value
  | none =>
      if ((← frame).local? name).isSome then throw (.unboundLocal name)
      else
        match Builtin.ofName? name with
        | some builtin => return .builtin builtin
        | none => throw (.name name)

def setGlobal (name : String) (value : Value) : Effect σ Unit := fun machine =>
  some (.ok (), { machine with globals := machine.globals.set name value })

/-- Binds a name: a local inside a function, a global at top level. -/
def store (name : String) (value : Value) : Effect σ Unit := do
  match (← frame).activation with
  | none => setGlobal name value
  | some activation =>
      match activation.position? name with
      | none => internal (.notLocal name activation.definition.name)
      | some position =>
          if position < activation.slots.size then
            modifyFrame fun frame =>
              { frame with
                activation := frame.activation.map fun activation =>
                  { activation with slots := activation.slots.setIfInBounds position (some value) } }
          else internal (.missingSlot name)

def bindVariable (name : String) (value : Value) : Effect σ Unit :=
  modifyFrame fun frame =>
    match frame.scopes with
    | [] => frame
    | scope :: outer => { frame with scopes := scope.set name value :: outer }

def openScope : Effect σ Unit :=
  modifyFrame fun frame => { frame with scopes := .empty :: frame.scopes }

def closeScope : Effect σ Unit :=
  modifyFrame fun frame => { frame with scopes := frame.scopes.tail }

end Effect

/-- The items of a value that is taken apart into a number of them. -/
def unpacked (value : Value) (expected : Nat) : Action (List Value) := fun heap =>
  match value.items? heap with
  | none => Action.typeError value .notUnpackable heap
  | some (items, heap) =>
      if expected < items.length then some (.error (.value (.tooManyToUnpack expected)), heap)
      else if items.length < expected then
        some (.error (.value (.notEnoughToUnpack expected items.length)), heap)
      else some (.ok items, heap)

end Stepwise.Run
