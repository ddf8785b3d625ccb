import Stepwise.Script.Tree
import Stepwise.Value.Basic

/-!
Hooks that observe the frames of a run.

A hook is told about every event of a frame that it has not turned away from, and sees the frame as
it is at that moment.  It has a state of its own and cannot change anything else.
-/

namespace Stepwise.Run

open Script

/-- What happens to the frame of a script function. -/
inductive Event where
  | call
  | line
  /-- An error leaves the frame. -/
  | exception
  /-- The frame is done, with a value or after an error. -/
  | exit
  deriving Repr, DecidableEq

/-- Whether a hook still wants the events of a frame. -/
inductive Disposition where
  | keep | detach
  deriving Repr, DecidableEq

structure FrameView where
  heap : Heap
  namespaceId : Nat
  /-- The function that the frame belongs to. -/
  definition : Definition
  /-- The values of the function's locals, by position. -/
  slots : Array (Option Value)
  /-- The line that is about to run, or that ran last. -/
  line : Nat

/-- The locals that have a value, in the order of their declaration. -/
def boundLocals : List String → List (Option Value) → List (String × Value)
  | name :: names, some value :: slots => (name, value) :: boundLocals names slots
  | _ :: names, none :: slots => boundLocals names slots
  | _, _ => []

/-- The locals of a frame that have a value, in the order of their declaration. -/
def FrameView.locals (view : FrameView) : List (String × Value) :=
  boundLocals view.definition.locals view.slots.toList

/-- An observer whose state is `σ`. -/
structure Hook (σ : Type) where
  notify : FrameView → Event → σ → Disposition × σ

end Stepwise.Run
