import Stepwise.Proofs.Lockstep
import Stepwise.Proofs.Log
import Stepwise.Record.Tracer

/-!
Recordings are what a log says.

A tracer's run goes in lockstep with the same call under a logging hook that keeps every frame.  The
steps are the lines of the log, whatever the tracer has recorded before.
-/

namespace Stepwise.Record

open Run

/-- The bound locals of a frame in the order of their declaration, each with a copy of its value. -/
def copies (depth : Nat) (view : FrameView) : List (String × Snapshot) :=
  (view.definition.locals.zip view.slots.toList).filterMap fun (name, slot) =>
    slot.map fun value => (name, captureOrText view.heap depth value)

theorem boundLocals_eq (names : List String) (slots : List (Option Value)) :
    boundLocals names slots =
      (names.zip slots).filterMap fun (name, slot) => slot.map fun value => (name, value) := by
  induction names generalizing slots with
  | nil => cases slots <;> simp [boundLocals]
  | cons name names inductionHypothesis =>
      cases slots with
      | nil => simp [boundLocals]
      | cons slot slots => cases slot <;> simp [boundLocals, inductionHypothesis]

theorem captureBindings_locals (depth : Nat) (view : FrameView) :
    captureBindings view.heap depth view.locals = copies depth view := by
  rw [captureBindings, FrameView.locals, boundLocals_eq, List.map_filterMap, copies]
  congr 1
  funext (name, slot)
  cases slot <;> rfl

def Step.facts (step : Step) : Nat × List (String × Snapshot) := (step.line, step.bindings)

structure Trace.Follows (depth : Nat) (log : List Entry) (trace : Trace) : Prop where
  numbered : trace.Numbered
  facts : trace.steps.toList.map Step.facts =
    (lineViews log).map fun view => (view.line, copies depth view)

theorem Tracer.recording_follows (tracer : Tracer) (depth : Nat) :
    tracer.recording.trace.Follows depth [] :=
  ⟨tracer.trace.reset_numbered, rfl⟩

theorem Trace.Follows.addLine {depth : Nat} {log : List Entry} {recording : Recording}
    (follows : recording.trace.Follows depth log) (space : Namespace) (view : FrameView)
    (answer : Disposition) :
    (recording.addLine space depth view).trace.Follows depth (log ++ [⟨view, .line, answer⟩]) := by
  have lines : lineViews [⟨view, .line, answer⟩] = [view] := by simp [lineViews]
  refine ⟨follows.numbered.record _ _ _, ?_⟩
  rw [lineViews_append, lines, List.map_append, ← follows.facts]
  simp only [Recording.addLine, Trace.record, Array.toList_push, List.map_append,
    captureBindings_locals, Step.facts, List.map_cons, List.map_nil]

theorem logging_agrees_recorder (space : Namespace) (depth : Nat) :
    (Hook.logging .keepAll).Agrees (recorder space depth) fun log recording =>
      recording.trace.Follows depth log := by
  intro view event log recording follows
  refine ⟨by cases event <;> rfl, ?_⟩
  cases event with
  | line => exact follows.addLine space view .keep
  | _ => exact ⟨follows.numbered, by simpa [Hook.logging, recorder, lineViews] using follows.facts⟩

/-- What the tracer gives back and keeps is what the call under the logging hook comes to. -/
structure Traced.Records (depth : Nat) (logged : Outcome (List Entry)) (traced : Traced) : Prop where
  numbered : traced.tracer.trace.Numbered
  steps : traced.tracer.trace.steps.toList.map Step.facts =
    (lineViews logged.observer).map fun view => (view.line, copies depth view)
  heap : traced.heap = logged.heap
  result : match logged.result with
    | .ok value => traced.result =
        .ok ⟨captureOrText logged.heap depth value, traced.tracer.trace.steps, logged.output⟩
    | .error error => traced.result = .error error

/-- A traced call is the same call under the hook that logs and keeps every frame: neither ends, or
both do, and then what the tracer gives back and keeps is read off the log and the outcome.  Whatever
trace the tracer held before, the steps are those of this call alone: they are counted from zero and
numbered by their places. -/
theorem Tracer.run?_records (tracer : Tracer) (space : Namespace) (callable : Callable)
    (argument : Value) :
    Option.Rel (Traced.Records tracer.settings.snapshotDepth)
      (space.call? tracer.settings.callLimit (some (Hook.logging .keepAll)) [] callable [argument])
      (tracer.run? space callable argument) := by
  let depth := tracer.settings.snapshotDepth
  let limit := tracer.settings.callLimit
  let logging := Namespace.environment space.id space.program limit (some (Hook.logging .keepAll))
  let recording := Namespace.environment space.id space.program limit (some (recorder space depth))
  have coupling : Coupling logging recording True fun log recording =>
      recording.trace.Follows depth log :=
    (logging_agrees_recorder space depth).coupling rfl rfl rfl rfl rfl
  have ended := coupling.call? (tracer.recording_follows depth) callable [argument]
  unfold Tracer.run?
  -- from here on all that matters of the two calls is that they end alike
  revert ended
  generalize space.call? _ (some (Hook.logging .keepAll)) _ _ _ = logged
  simp only
  generalize space.call? _ (some (recorder space tracer.settings.snapshotDepth)) _ _ _ = recorded
  intro ended
  cases ended with
  | none => exact .none
  | @some bare outcome linked =>
      refine .some ?_
      obtain ⟨result, recording, output, heap⟩ := outcome
      obtain ⟨sameResult, ⟨numbered, steps⟩, sameOutput, sameHeap⟩ := linked
      subst sameOutput sameHeap
      cases result with
      | ok value => exact ⟨numbered, steps, rfl, by rw [sameResult]⟩
      | error error => exact ⟨numbered, steps, rfl, by rw [sameResult]⟩

end Stepwise.Record
