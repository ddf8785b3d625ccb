import Stepwise.Run.Action
import Stepwise.Run.Bindings
import Stepwise.Run.Hook

/-!
The state of a run, and the effects that a run is made of.

An effect ends with a result, with an error, or with nothing at all: if the run was given too little
fuel, or if the program breaks off, as where a list would be read that is being changed or a text would
be longer than any allocation.  What it has done to the machine until an error stays done.
-/

namespace Stepwise.Run

open Script

/-- The part of a frame that only a call of a script function has. -/
structure Activation where
  definition : Definition
  /-- The values of the function's locals, by position. -/
  slots : Array (Option Value)
  /-- Whether the hook wants the events of this frame. -/
  traced : Bool

/-- Code that is running: top-level statements, or the body of a function. -/
structure Frame where
  /-- Nothing for top-level statements. -/
  activation : Option Activation
  /-- The line of the statement that is running. -/
  line : Nat
  /-- The variables of the comprehensions that are running, innermost first. -/
  scopes : List Bindings

def Frame.topLevel : Frame := ⟨none, 0, []⟩

def Frame.ofCall (definition : Definition) (slots : Array (Option Value)) : Frame :=
  ⟨some ⟨definition, slots, false⟩, definition.firstLine, []⟩

/-- Whether the hook wants the events of a frame. -/
def Frame.isTraced (frame : Frame) : Bool :=
  match frame.activation with
  | some activation => activation.traced
  | none => false

/-- A frame with a decision whether the hook wants its events. -/
def Frame.setTraced (frame : Frame) (traced : Bool) : Frame :=
  { frame with
    activation := frame.activation.map fun activation => { activation with traced := traced } }

/-- The state of a run. -/
structure Machine (σ : Type) where
  heap : Heap
  globals : Bindings
  /-- The text printed so far. -/
  output : String
  observer : σ
  /-- The number of script functions that are running. -/
  depth : Nat
  frame : Frame

/-- What stays the same during a run. -/
structure Environment (σ : Type) where
  namespaceId : Nat
  functions : List Definition
  /-- How many script functions may run inside each other. -/
  callLimit : Nat
  hook : Option (Hook σ)

abbrev Effect (σ : Type) := ExceptT RuntimeError (StateT (Machine σ) Option)

namespace Effect

variable {σ α : Type}

/-- The end of a run that was given too little fuel. -/
def exhausted : Effect σ α := fun _ => none

def onHeap (action : Action α) : Effect σ α := fun machine =>
  match machine with
  | ⟨heap, globals, output, observer, depth, frame⟩ =>
      match action heap with
      | none => none
      | some (result, heap) => some (result, ⟨heap, globals, output, observer, depth, frame⟩)

def view (look : Heap → α) : Effect σ α := fun machine => some (.ok (look machine.heap), machine)

def frame : Effect σ Frame := fun machine => some (.ok machine.frame, machine)

def modifyFrame (change : Frame → Frame) : Effect σ Unit := fun machine =>
  some (.ok (), { machine with frame := change machine.frame })

def modifyDepth (change : Nat → Nat) : Effect σ Unit := fun machine =>
  some (.ok (), { machine with depth := change machine.depth })

def write (text : String) : Effect σ Unit := fun machine =>
  match machine with
  | ⟨heap, globals, output, observer, depth, frame⟩ =>
      some (.ok (), ⟨heap, globals, output ++ text, observer, depth, frame⟩)

/-- The result of an effect or its error, as a value. -/
def outcome (effect : Effect σ α) : Effect σ (Except RuntimeError α) := fun machine =>
  match effect machine with
  | none => none
  | some (result, machine) => some (.ok result, machine)

/-- Goes on with the result of an effect, or fails with its error. -/
def resume (result : Except RuntimeError α) : Effect σ α := fun machine => some (result, machine)

def internal (problem : InternalProblem) : Effect σ α := throw (.internal problem)

end Effect

variable {σ : Type}

/-- Tells the hook about an event of the running frame; without a hook, or at top level, nothing
happens. -/
def report (environment : Environment σ) (event : Event) : Effect σ Disposition := fun machine =>
  match environment.hook, machine.frame.activation with
  | some hook, some activation =>
      let view : FrameView :=
        ⟨machine.heap, environment.namespaceId, activation.definition, activation.slots,
          machine.frame.line⟩
      let (disposition, observer) := hook.notify view event machine.observer
      some (.ok disposition, { machine with observer := observer })
  | _, _ => some (.ok .keep, machine)

/-- Moves the running frame to a line and tells the hook, if it wants the events of the frame. -/
def reportLine (environment : Environment σ) (line : Nat) : Effect σ Unit := do
  Effect.modifyFrame fun frame => { frame with line := line }
  if (← Effect.frame).isTraced then
    if (← report environment .line) = .detach then
      Effect.modifyFrame fun frame => frame.setTraced false

/-- Moves the running frame to a line without telling the hook. -/
def moveToLine (line : Nat) : Effect σ Unit :=
  Effect.modifyFrame fun frame => { frame with line := line }

end Stepwise.Run
