import Stepwise.Record.Excerpt
import Stepwise.Record.Snapshot
import Stepwise.Run.Namespace

/-!
The steps of a run, and the hook that records them.

A step is one line about to run, with the values of the locals at that moment.
-/

namespace Stepwise.Record

open Run

structure Step where
  /-- The position in the order of execution, from zero. -/
  index : Nat
  line : Nat
  /-- The text of the line, trimmed. -/
  code : String
  /-- The locals that had a value before the line ran, in order. -/
  bindings : List (String × Snapshot)

/-- The steps of a run in order, and the count that numbers them. -/
structure Trace where
  steps : Array Step
  stepCount : Nat

namespace Trace

def empty : Trace := ⟨#[], 0⟩

def size (trace : Trace) : Nat := trace.steps.size

def isEmpty (trace : Trace) : Bool := trace.steps.isEmpty

def reset (trace : Trace) : Trace := { trace with steps := #[], stepCount := 0 }

/-- A trace with one more step, and the index that the step was given. -/
def record (trace : Trace) (line : Nat) (code : String) (bindings : List (String × Snapshot)) :
    Nat × Trace :=
  let index := trace.stepCount
  (index, ⟨trace.steps.push ⟨index, line, code, bindings⟩, trace.stepCount + 1⟩)

/-- The count is that of the steps, and every step has its place as index. -/
structure Numbered (trace : Trace) : Prop where
  stepCount : trace.stepCount = trace.size
  index : ∀ place (inside : place < trace.steps.size), trace.steps[place].index = place

theorem reset_numbered (trace : Trace) : trace.reset.Numbered := ⟨rfl, nofun⟩

theorem Numbered.record {trace : Trace} (numbered : trace.Numbered) (line : Nat) (code : String)
    (bindings : List (String × Snapshot)) : (trace.record line code bindings).2.Numbered := by
  refine ⟨?_, fun place inside => ?_⟩
  · rw [Trace.record, size, Array.size_push, numbered.stepCount, size]
  · by_cases old : place < trace.steps.size
    · simpa [Trace.record, Array.getElem_push, old] using numbered.index place old
    · have last : place = trace.steps.size := by
        simp only [Trace.record, Array.size_push] at inside
        omega
      subst place
      simpa [Trace.record, size] using numbered.stepCount

end Trace

structure Recording where
  excerpts : Excerpts
  trace : Trace

def Recording.addLine (recording : Recording) (space : Namespace) (depth : Nat)
    (view : FrameView) : Recording :=
  let (excerpt, excerpts) :=
    recording.excerpts.lookup space.source space.program.functions
      ⟨view.namespaceId, view.definition.id⟩
  let code := match excerpt with
    | some excerpt => excerpt.line view.line
    | none => unknownLine view.line
  let (_, trace) :=
    recording.trace.record view.line code (captureBindings view.heap depth view.locals)
  ⟨excerpts, trace⟩

/-- The hook that records a step for every line of every frame, with copies of a given depth. -/
def recorder (space : Namespace) (depth : Nat) : Hook Recording where
  notify view event recording :=
    match event with
    | .line => (.keep, recording.addLine space depth view)
    | _ => (.keep, recording)

end Stepwise.Record
