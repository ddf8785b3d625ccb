import Stepwise.Record.Settings
import Stepwise.Record.Step

/-!
Tracing calls.

A tracer keeps the excerpts of earlier runs and the steps of the last one.
-/

namespace Stepwise.Record

open Run

inductive Progress where
  | idle
  | completed
  | failed
  deriving Repr, DecidableEq

/-- A recorder of runs. -/
structure Tracer where
  settings : Settings
  excerpts : Excerpts
  trace : Trace
  progress : Progress
  /-- The number of the next namespace.  It counts on without end, and fits in 32 bits for the first
  2 ^ 32 namespaces. -/
  nextNamespace : Nat

structure Report where
  result : Snapshot
  steps : Array Step
  /-- The lines that were printed. -/
  output : List String

/-- A tracer after a run, with the heap that the run left behind. -/
structure Traced where
  tracer : Tracer
  heap : Heap
  result : Except RuntimeError Report

namespace Tracer

/-- A tracer before its first run. -/
def ofSettings (settings : Settings) : Tracer :=
  ⟨settings, .ofCapacity Excerpts.standardCapacity, .empty, .idle, 1⟩

/-- Compiles a source under a number of its own. -/
def compile? (tracer : Tracer) (source : String) :
    Option (Except LoadError Namespace × Tracer) :=
  (Namespace.compile? tracer.nextNamespace source tracer.settings.callLimit).map fun result =>
    (result, { tracer with nextNamespace := tracer.nextNamespace + 1 })

/-- A recording that goes on with the excerpts of a tracer and with none of its steps. -/
def recording (tracer : Tracer) : Recording := ⟨tracer.excerpts, tracer.trace.reset⟩

/-- Calls a function with one argument and records a step for every line that runs. -/
def run? (tracer : Tracer) (space : Namespace) (callable : Callable) (argument : Value) :
    Option Traced :=
  let depth := tracer.settings.snapshotDepth
  let call := space.call? tracer.settings.callLimit (some (recorder space depth))
    tracer.recording callable [argument]
  call.map fun outcome =>
    let after := { tracer with
      excerpts := outcome.observer.excerpts
      trace := outcome.observer.trace }
    match outcome.result with
    | .ok value =>
        let result := captureOrText outcome.heap depth value
        ⟨{ after with progress := .completed }, outcome.heap,
          .ok ⟨result, outcome.observer.trace.steps, outcome.output⟩⟩
    | .error error => ⟨{ after with progress := .failed }, outcome.heap, .error error⟩

end Tracer

end Stepwise.Record
