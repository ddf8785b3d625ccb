import Stepwise.Proofs.Effects

/-!
Logs of the events of a run.

A logging hook writes down every event that it is told of, with the frame as it was and its own
answer.  It answers by a strategy, which may look at everything that was written down before.
-/

namespace Stepwise.Run

open Script

/-- An event of a frame and what the hook answered. -/
structure Entry where
  view : FrameView
  event : Event
  answer : Disposition

/-- How a hook answers to an event after those of a log. -/
abbrev Strategy := List Entry → FrameView → Event → Disposition

def Strategy.keepAll : Strategy := fun _ _ _ => .keep

/-- The hook that logs all events and answers by a strategy. -/
def Hook.logging (strategy : Strategy) : Hook (List Entry) where
  notify view event log :=
    let answer := strategy log view event
    (answer, log ++ [⟨view, event, answer⟩])

/-- The entry that a logging hook makes for an event of the frame that is running. -/
def Machine.entry (environment : Environment (List Entry)) (strategy : Strategy)
    (activation : Activation) (event : Event) (machine : Machine (List Entry)) : Entry :=
  let view : FrameView :=
    ⟨machine.heap, environment.namespaceId, activation.definition, activation.slots,
      machine.frame.line⟩
  ⟨view, event, strategy machine.observer view event⟩

def Machine.opening (environment : Environment (List Entry)) (strategy : Strategy)
    (definition : Definition) (slots : Array (Option Value)) (machine : Machine (List Entry)) :
    Entry :=
  ({ machine with frame := .ofCall definition slots } : Machine (List Entry)).entry environment
    strategy ⟨definition, slots, false⟩ .call

def closingEvents (traced failed : Bool) : List Event :=
  if traced then if failed then [.exception, .exit] else [.exit] else []

section

variable {environment : Environment (List Entry)} {strategy : Strategy}
  (hooked : environment.hook = some (.logging strategy)) (machine : Machine (List Entry))
  {activation : Activation} (running : machine.frame.activation = some activation)

include hooked running

theorem tell_logging (event : Event) :
    machine.tell environment event =
      ((machine.entry environment strategy activation event).answer,
        { machine with
          observer :=
            machine.observer ++ [machine.entry environment strategy activation event] }) := by
  unfold Machine.tell
  rw [hooked, running]
  rfl

/-- A traced frame that comes to a line logs it, and is traced on if the hook keeps it. -/
theorem reachLine_logging (traced : activation.traced = true) (line : Nat) :
    let moved : Machine (List Entry) :=
      { machine with frame := { machine.frame with line := line } }
    let entry := moved.entry environment strategy activation .line
    machine.reachLine environment line =
      { moved with
        observer := machine.observer ++ [entry]
        frame := moved.frame.setTraced (entry.answer = .keep) } := by
  intro moved entry
  have wanted : machine.frame.isTraced = true := by simp only [Frame.isTraced, running, traced]
  have told : moved.tell environment .line =
      (entry.answer, { moved with observer := machine.observer ++ [entry] }) :=
    tell_logging hooked moved running .line
  unfold Machine.reachLine
  simp only [wanted, if_true]
  rw [told]
  cases entry.answer with
  | detach => rfl
  | keep =>
      have kept : moved.frame.setTraced true = moved.frame := Frame.setTraced_of_isTraced wanted
      simp only [kept, reduceCtorEq, if_false, decide_true]

theorem enter_logging :
    let entry := machine.entry environment strategy activation .call
    machine.enter environment =
      { machine with
        observer := machine.observer ++ [entry]
        frame := machine.frame.setTraced (entry.answer = .keep) } := by
  intro entry
  unfold Machine.enter
  rw [hooked, Option.isSome_some, if_pos rfl, tell_logging hooked machine running]

theorem leave_logging (failed : Bool) :
    ∃ closing,
      machine.leave environment failed = { machine with observer := machine.observer ++ closing } ∧
      closing.map Entry.event = closingEvents activation.traced failed ∧
      ∀ entry ∈ closing, entry.view =
        ⟨machine.heap, environment.namespaceId, activation.definition, activation.slots,
          machine.frame.line⟩ := by
  have wanted : machine.frame.isTraced = activation.traced := by simp only [Frame.isTraced, running]
  unfold Machine.leave closingEvents
  rw [wanted]
  cases activation.traced with
  | false => exact ⟨[], by simp only [Bool.false_eq_true, if_false, List.append_nil], rfl, by simp⟩
  | true =>
      let first := machine.entry environment strategy activation .exit
      let raised := machine.entry environment strategy activation .exception
      let after : Machine (List Entry) := { machine with observer := machine.observer ++ [raised] }
      let second := after.entry environment strategy activation .exit
      cases failed with
      | false =>
          refine ⟨[first], ?_, rfl, by simp [first, Machine.entry]⟩
          simp only [if_true, Bool.false_eq_true, if_false, tell_logging hooked machine running, first]
      | true =>
          have left := tell_logging hooked after running .exit
          refine ⟨[raised, second], ?_, rfl, by simp [raised, second, after, Machine.entry]⟩
          simp only [if_true, tell_logging hooked machine running]
          refine (congrArg Prod.snd left).trans ?_
          simp only [after, List.append_assoc]
          rfl

end

section

variable {environment : Environment (List Entry)} {strategy : Strategy}
  (hooked : environment.hook = some (.logging strategy))

include hooked

/-- A function that is called logs that, and its frame is traced if the hook keeps it. -/
theorem activated_logging (definition : Definition) (slots : Array (Option Value))
    (machine : Machine (List Entry)) :
    let opening := machine.opening environment strategy definition slots
    machine.activated environment definition slots =
      { machine with
        observer := machine.observer ++ [opening]
        depth := machine.depth + 1
        frame := (Frame.ofCall definition slots).setTraced (opening.answer = .keep) } := by
  intro opening
  unfold Machine.activated
  simp only
  rw [enter_logging hooked { machine with frame := .ofCall definition slots } rfl]
  rfl

theorem returned_views {machine : Machine (List Entry)} {activation : Activation}
    (active : machine.frame.activation = some activation) (caller : Frame) (failed : Bool) :
    ∃ closing, closing.map Entry.event = closingEvents machine.frame.isTraced failed ∧
      (∀ entry ∈ closing, entry.view =
        ⟨machine.heap, environment.namespaceId, activation.definition, activation.slots,
          machine.frame.line⟩) ∧
      machine.returned environment caller failed =
        { machine with
          observer := machine.observer ++ closing
          depth := machine.depth - 1
          frame := caller } := by
  obtain ⟨closing, left, events, views⟩ :=
    leave_logging hooked { machine with depth := machine.depth - 1 } active failed
  refine ⟨closing, ?_, views, ?_⟩
  · rw [events, Frame.isTraced, active]
  · unfold Machine.returned
    rw [left]

theorem returned_logging {machine : Machine (List Entry)} {definition : Definition}
    (running : machine.frame.definition? = some definition) (caller : Frame) (failed : Bool) :
    ∃ closing, closing.map Entry.event = closingEvents machine.frame.isTraced failed ∧
      (∀ entry ∈ closing, entry.view.definition = definition ∧
        entry.view.line = machine.frame.line) ∧
      machine.returned environment caller failed =
        { machine with
          observer := machine.observer ++ closing
          depth := machine.depth - 1
          frame := caller } := by
  obtain ⟨activation, active, rfl⟩ := Frame.activation_of_definition? running
  obtain ⟨closing, events, views, left⟩ := returned_views hooked active caller failed
  refine ⟨closing, events, fun entry member => ?_, left⟩
  rw [views entry member]
  exact ⟨rfl, rfl⟩

end

def lineViews (log : List Entry) : List FrameView :=
  (log.filter fun entry => entry.event = .line).map Entry.view

theorem lineViews_append (log later : List Entry) :
    lineViews (log ++ later) = lineViews log ++ lineViews later := by
  simp [lineViews]

end Stepwise.Run
