import Stepwise.Run.Execution

/-!
Running top-level statements and calling functions.

A run at level `n` may nest expressions, blocks and calls `n` deep and go around each loop `n` times.
A run that ends at one level ends in the same way at every higher one.
-/

namespace Stepwise.Run

open Script Effect

/-- The value that a body gives back. -/
def Flow.value : Flow → Value
  | .returning value => value
  | _ => .none

section

variable {σ : Type} (environment : Environment σ) (below : Level σ)

/-- Tells the hook that a frame is set up, and whether it wants the events of the frame.  A run
without a hook wants none. -/
def enter : Effect σ Unit := do
  if environment.hook.isSome then
    let disposition ← report environment .call
    modifyFrame fun frame => frame.setTraced (disposition = .keep)

/-- Tells the hook how a frame ends, if it still wants the events of the frame. -/
def leave (result : Except RuntimeError Flow) : Effect σ Unit := do
  if (← frame).isTraced then
    if let .error _ := result then
      let _ ← report environment .exception
    let _ ← report environment .exit

def runBody (definition : Definition) : Effect σ Value := do
  enter environment
  modifyDepth (· + 1)
  let result ← outcome (below.execute definition.body)
  modifyDepth (· - 1)
  leave environment result
  return (← resume result).value

def activate (definition : Definition) (slots : Array (Option Value)) : Effect σ Value := do
  let caller ← frame
  modifyFrame fun _ => .ofCall definition slots
  let result ← outcome (runBody environment below definition)
  modifyFrame fun _ => caller
  resume result

def callFunction (function : FunctionObject) (arguments : List Value) (keywords : Keywords) :
    Effect σ Value := do
  if function.home ≠ environment.namespaceId then
    internal (.foreignFunction function.name function.home environment.namespaceId)
  match environment.functions[function.id]? with
  | none => internal (.unknownFunction function.id)
  | some definition =>
      if environment.callLimit ≤ (← get).depth then throw (.recursionLimit environment.callLimit)
      match bindArguments definition function.defaults arguments keywords with
      | .error problem => throw (.type problem)
      | .ok slots => activate environment below definition slots

def callValue (fuel : Nat) (function : Value) (arguments : List Value) (keywords : Keywords) :
    Effect σ Value := do
  match function with
  | .function ref => do
      let function ← view fun heap => heap.function ref
      callFunction environment below function arguments keywords
  | .builtin builtin => applyBuiltin below.call fuel builtin arguments keywords
  | other => onHeap (Action.typeError other .notCallable)

end

variable {σ : Type} (environment : Environment σ)

/-- The level with some fuel. -/
def level : Nat → Level σ
  | 0 => .exhausted
  | fuel + 1 =>
      { evaluate := fun expr => evaluate (level fuel) fuel expr
        execute := fun block => executeBlock environment (level fuel) fuel block
        call := fun function arguments keywords =>
          callValue environment (level fuel) fuel function arguments keywords }

/-- The fuel of a run: more steps than any machine takes. -/
def ampleFuel : Nat := 4611686018427387904

/-- A machine before its first step. -/
def Machine.start (heap : Heap) (globals : Bindings) (observer : σ) : Machine σ :=
  ⟨heap, globals, "", observer, 0, .topLevel⟩

/-- Something that can be called from outside of a run. -/
inductive Callee where
  | function (object : FunctionObject)
  | builtin (named : Builtin)

/-- Calls a callee with arguments by position. -/
def Callee.call (fuel : Nat) (arguments : List Value) : Callee → Effect σ Value
  | .function object => callFunction environment (level environment fuel) object arguments []
  | .builtin named => applyBuiltin (level environment fuel).call fuel named arguments []

end Stepwise.Run
