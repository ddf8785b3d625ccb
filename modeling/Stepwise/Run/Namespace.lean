import Stepwise.Run.Interpreter
import Stepwise.Script.Parser
import Stepwise.Text.Search

/-!
Compiled sources.

Compiling parses a source and runs its top-level statements once, without a hook.  What they have
bound can then be looked up and called.  A call can change the shared values of a namespace, and
nothing else of it.
-/

namespace Stepwise.Run

open Script

structure Namespace where
  id : Nat
  source : String
  program : Program
  globals : Bindings
  heap : Heap

inductive LoadError where
  | malformed (error : SyntaxError)
  | notFound (name : String)
  | notCallable (name typeName : String)
  /-- The top-level statements failed. -/
  | failed (error : RuntimeError)

def LoadError.message : LoadError → String
  | .malformed error => error.message
  | .notFound missing => s!"name '{missing}' is not defined"
  | .notCallable bound typeName => s!"'{typeName}' object bound to '{bound}' is not callable"
  | .failed error => error.message

/-- A function or builtin and the name it was looked up by. -/
structure Callable where
  name : String
  callee : Callee

def outputLines (text : String) : List String :=
  match text.toList with
  | [] => []
  | characters =>
      let characters :=
        if characters.getLast? = some '\n' then characters.dropLast else characters
      (Text.split ['\n'] characters).map String.ofList

structure Outcome (σ : Type) where
  result : Except RuntimeError Value
  /-- The hook's state after the call. -/
  observer : σ
  /-- The lines that were printed. -/
  output : List String
  heap : Heap

namespace Namespace

/-- What stays the same while code of a namespace runs. -/
def environment {σ : Type} (id : Nat) (program : Program) (callLimit : Nat)
    (hook : Option (Hook σ)) : Environment σ :=
  ⟨id, program.functions, callLimit, hook⟩

/-- The namespace that the top-level statements of a program leave behind. -/
def ofProgram? (fuel id : Nat) (source : String) (callLimit : Nat) (program : Program) :
    Option (Except LoadError Namespace) :=
  let run := (level (environment id program callLimit none) fuel).execute program.body
  match run (Machine.start .empty .empty ()) with
  | none => none
  | some (.ok _, machine) => some (.ok ⟨id, source, program, machine.globals, machine.heap⟩)
  | some (.error error, _) => some (.error (.failed error))

def compile? (id : Nat) (source : String) (callLimit : Nat) : Option (Except LoadError Namespace) :=
  match Program.parse? source with
  | none => none
  | some (.error error) => some (.error (.malformed error))
  | some (.ok program) => ofProgram? ampleFuel id source callLimit program

def global? (space : Namespace) (name : String) : Option Value := space.globals.get? name

/-- The function that a name is bound to. -/
def callable (space : Namespace) (name : String) : Except LoadError Callable :=
  match space.global? name with
  | none => .error (.notFound name)
  | some (.function ref) => .ok ⟨name, .function (space.heap.function ref)⟩
  | some (.builtin builtin) => .ok ⟨name, .builtin builtin⟩
  | some other => .error (.notCallable name (other.typeName space.heap))

/-- Calls a function in a namespace under a hook. -/
def call? {σ : Type} (space : Namespace) (callLimit : Nat) (hook : Option (Hook σ)) (observer : σ)
    (callable : Callable) (arguments : List Value) : Option (Outcome σ) :=
  let environment := environment space.id space.program callLimit hook
  let run := callable.callee.call environment ampleFuel arguments
  match run (Machine.start space.heap space.globals observer) with
  | none => none
  | some (result, machine) =>
      some ⟨result, machine.observer, outputLines machine.output, machine.heap⟩

end Namespace

end Stepwise.Run
