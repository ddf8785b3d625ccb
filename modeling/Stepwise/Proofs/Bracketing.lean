import Stepwise.Proofs.Correspondence.Course
import Stepwise.Proofs.Log

/-!
The grammar of event logs.

A frame opens with a call, goes on with lines and the complete logs of the frames that it calls, and
closes.  A frame that the hook turns away from logs nothing more of its own, and the frames that it
calls do not care.
-/

namespace Stepwise.Run

open Script Effect

/-- The logs of frames that ran one after the other.  Only the last may have failed, and only if the
code that called it fails. -/
inductive Calls (frame : (failed : Bool) → List Entry → Prop) (failed : Bool) :
    List Entry → Prop where
  | none : Calls frame failed []
  | last {log : List Entry} : failed = true → frame true log → Calls frame failed log
  | next {log rest : List Entry} :
      frame false log → Calls frame failed rest → Calls frame failed (log ++ rest)

/-- What a frame logs while its body runs: the frames that it calls, and its lines as long as it is
traced.  The flags say whether it is traced before and after. -/
inductive Lines (frame : (failed : Bool) → List Entry → Prop) (definition : Option Definition)
    (failed : Bool) : Bool → List Entry → Bool → Prop where
  | rest {traced : Bool} {log : List Entry} :
      Calls frame failed log → Lines frame definition failed traced log traced
  | line {log later : List Entry} {entry : Entry} {traced : Bool} :
      Calls frame false log → entry.event = .line → some entry.view.definition = definition →
      Lines frame definition failed (entry.answer = .keep) later traced →
      Lines frame definition failed true (log ++ entry :: later) traced

/-- The log of a frame of a function, given the logs of the frames that it may call. -/
inductive Bracketed (frame : (failed : Bool) → List Entry → Prop) (definition : Definition)
    (failed : Bool) : List Entry → Prop where
  | intro {opening : Entry} {inner closing : List Entry} {traced : Bool} :
      opening.event = .call → opening.view.definition = definition →
      Lines frame (some definition) failed (opening.answer = .keep) inner traced →
      closing.map Entry.event = closingEvents traced failed →
      (∀ entry ∈ closing, entry.view.definition = definition) →
      Bracketed frame definition failed (opening :: (inner ++ closing))

/-- The log of a frame of a function, in which frames nest at most `room` deep. -/
def FrameLog : (room : Nat) → Definition → (failed : Bool) → List Entry → Prop
  | 0 => fun _ _ _ => False
  | room + 1 => Bracketed fun failed log => ∃ called, FrameLog room called failed log

abbrev AnyFrameLog (room : Nat) (failed : Bool) (log : List Entry) : Prop :=
  ∃ definition, FrameLog room definition failed log

/-- The log of a call of a script function: nothing if the call is refused, or else one frame. -/
def CallLog (room : Nat) (admission : Except RuntimeError (Definition × Array (Option Value)))
    (result : Except RuntimeError Value) (log : List Entry) : Prop :=
  match admission with
  | .error error => result = .error error ∧ log = []
  | .ok (definition, _) => FrameLog room definition (failed result) log

section

variable {frame : (failed : Bool) → List Entry → Prop} {definition : Option Definition}
  {failed traced between after : Bool} {log later : List Entry}

theorem Calls.one (called : frame failed log) : Calls frame failed log := by
  cases failed with
  | true => exact .last rfl called
  | false =>
      have only : Calls frame false (log ++ []) := .next called .none
      rwa [List.append_nil] at only

theorem CallLog.calls {room : Nat}
    {admission : Except RuntimeError (Definition × Array (Option Value))}
    {result : Except RuntimeError Value} (logged : CallLog room admission result log) :
    Calls (AnyFrameLog room) (Run.failed result) log := by
  unfold CallLog at logged
  split at logged
  · rw [logged.2]
    exact .none
  · exact .one ⟨_, logged⟩

theorem Calls.append (calls : Calls frame false log) (others : Calls frame failed later) :
    Calls frame failed (log ++ later) := by
  induction calls with
  | none => exact others
  | last impossible => cases impossible
  | next one _ inductionHypothesis =>
      rw [List.append_assoc]
      exact .next one inductionHypothesis

theorem Calls.lines (calls : Calls frame false log)
    (others : Lines frame definition failed traced later after) :
    Lines frame definition failed traced (log ++ later) after := by
  cases others with
  | rest others => exact .rest (calls.append others)
  | line others event named rest =>
      rw [← List.append_assoc]
      exact .line (calls.append others) event named rest

theorem Lines.append (lines : Lines frame definition false traced log between)
    (others : Lines frame definition failed between later after) :
    Lines frame definition failed traced (log ++ later) after := by
  induction lines with
  | rest calls => exact calls.lines others
  | line calls event named _ inductionHypothesis =>
      rw [List.append_assoc, List.cons_append]
      exact .line calls event named (inductionHypothesis others)

end

def framesAccount (callLimit : Nat) : Account (List Entry) where
  Allows depth failed before after :=
    ∃ log, after = before ++ log ∧ Calls (AnyFrameLog (callLimit - depth)) failed log
  stay depth failed log := ⟨[], (List.append_nil log).symm, .none⟩
  trans := by
    rintro depth failed before _ _ ⟨first, rfl, calls⟩ ⟨second, rfl, others⟩
    exact ⟨first ++ second, List.append_assoc .., calls.append others⟩

structure Logs (callLimit : Nat) (failed : Bool) (start finish : Machine (List Entry)) : Prop where
  depth : finish.depth = start.depth
  definition : finish.frame.definition? = start.frame.definition?
  log : ∃ log, finish.observer = start.observer ++ log ∧
    Lines (AnyFrameLog (callLimit - start.depth)) start.frame.definition? failed
      start.frame.isTraced log finish.frame.isTraced

theorem Logs.of_silent {callLimit : Nat} {failed : Bool} {start finish : Machine (List Entry)}
    (depth : finish.depth = start.depth)
    (definition : finish.frame.definition? = start.frame.definition?)
    (traced : finish.frame.isTraced = start.frame.isTraced)
    (observer : finish.observer = start.observer) : Logs callLimit failed start finish :=
  ⟨depth, definition, [], by rw [observer, List.append_nil], traced ▸ .rest .none⟩

def linesCourse (callLimit : Nat) : Course (List Entry) where
  Leads := Logs callLimit
  stay failed machine := .of_silent rfl rfl rfl rfl
  trans := by
    intro failed start middle finish before after
    obtain ⟨depth, definition, log, observer, lines⟩ := before
    obtain ⟨laterDepth, laterDefinition, later, laterObserver, others⟩ := after
    rw [depth, definition] at others
    refine ⟨laterDepth.trans depth, laterDefinition.trans definition, log ++ later, ?_,
      lines.append others⟩
    rw [laterObserver, observer, List.append_assoc]
  withHeap _ _ _ _ := .of_silent rfl rfl rfl rfl

section

variable {environment : Environment (List Entry)} {strategy : Strategy}
  (hooked : environment.hook = some (.logging strategy))

include hooked

theorem reachLine_logs (line : Nat) (machine : Machine (List Entry)) :
    Logs environment.callLimit false machine (machine.reachLine environment line) := by
  cases wanted : machine.frame.isTraced with
  | false =>
      rw [machine.reachLine_of_untraced environment line wanted]
      exact .of_silent rfl rfl rfl rfl
  | true =>
      obtain ⟨activation, running, traced⟩ := Frame.activation_of_isTraced wanted
      rw [reachLine_logging hooked machine running traced line]
      refine ⟨rfl, Frame.definition?_setTraced _ _, _, rfl, ?_⟩
      rw [wanted, Frame.isTraced_setTraced, running, Option.isSome_some, Bool.and_true]
      have named : some activation.definition = machine.frame.definition? := by
        rw [Frame.definition?, running, Option.map_some]
      exact Lines.line .none rfl named (.rest .none)

theorem callFunction_logs {fuel : Nat}
    (executes : ∀ block, (linesCourse environment.callLimit).Follows
      ((level environment fuel).execute block))
    {function : FunctionObject} {arguments : List Value} {keywords : Keywords}
    {machine after : Machine (List Entry)} {result : Except RuntimeError Value}
    (ended : callFunction environment (level environment fuel) function arguments keywords machine =
      some (result, after)) :
    after.frame = machine.frame ∧ after.depth = machine.depth ∧
      ∃ log, after.observer = machine.observer ++ log ∧
        CallLog (environment.callLimit - machine.depth)
          (environment.admission machine.depth function arguments keywords) result log := by
  rcases callFunction_ended ended with
    ⟨error, refused, rfl, rfl⟩ | ⟨definition, slots, flow, inner, admitted, ran, rfl, rfl⟩
  · refine ⟨rfl, rfl, [], (List.append_nil _).symm, ?_⟩
    rw [refused]
    exact ⟨rfl, rfl⟩
  · let opening := machine.opening environment strategy definition slots
    rw [activated_logging hooked] at ran
    obtain ⟨depth, kept, log, logged, lines⟩ := executes _ _ _ _ ran
    simp only [Frame.isTraced_ofCall] at lines
    obtain ⟨closing, events, closed, left⟩ :=
      returned_logging hooked kept machine.frame (failed flow)
    -- the frame takes one of the places that the limit leaves at its depth
    have deeper : environment.callLimit - machine.depth =
        environment.callLimit - (machine.depth + 1) + 1 := by
      have room := (Environment.admission_ok admitted).2.1
      omega
    rw [left]
    refine ⟨rfl, congrArg (· - 1) depth, opening :: (log ++ closing), ?_, ?_⟩
    · simp only [logged, opening, List.append_assoc, List.cons_append, List.nil_append]
    · rw [admitted, deeper, CallLog, failed_map]
      exact .intro rfl rfl lines events fun entry member => (closed entry member).1

end

def bracketing {environment : Environment (List Entry)} {strategy : Strategy}
    (hooked : environment.hook = some (.logging strategy)) : Discipline environment where
  account := framesAccount environment.callLimit
  binding := linesCourse environment.callLimit
  statement := linesCourse environment.callLimit
  statement_of_binding led := led
  binding_of_expression := by
    rintro failed start finish ⟨frame, depth, log, observer, calls⟩
    exact ⟨depth, by rw [frame], log, observer, by rw [frame]; exact .rest calls⟩
  store _ _ resembles := .of_silent rfl resembles.definition resembles.traced rfl
  moveToLine _ _ := .of_silent rfl rfl rfl rfl
  reportLine line machine := reachLine_logs hooked line machine
  callFunction := by
    intro fuel function arguments keywords executes machine result after ended
    obtain ⟨frame, depth, log, observer, logged⟩ := callFunction_logs hooked executes ended
    exact ⟨frame, depth, log, observer, logged.calls⟩

/-- The log of every call is well bracketed, however the hook answers.  A script function that is
called at any point of a run is refused, or adds the log of one frame; frames nest as deep as the
limit of calls at most.  A call from outside logs such a frame, or the frames that a builtin calls
one after the other. -/
theorem Namespace.call?_bracketed (space : Namespace) (callLimit : Nat) (strategy : Strategy) :
    let environment :=
      Namespace.environment space.id space.program callLimit (some (Hook.logging strategy))
    (∀ fuel function arguments keywords machine result after,
      callFunction environment (level environment fuel) function arguments keywords machine =
        some (result, after) →
      ∃ log, after.observer = machine.observer ++ log ∧
        CallLog (callLimit - machine.depth)
          (environment.admission machine.depth function arguments keywords) result log) ∧
    ∀ callable arguments outcome,
      space.call? callLimit (some (Hook.logging strategy)) [] callable arguments = some outcome →
      match callable.callee with
      | .builtin _ => Calls (AnyFrameLog callLimit) (failed outcome.result) outcome.observer
      | .function function =>
          CallLog callLimit (environment.admission 0 function arguments []) outcome.result
            outcome.observer := by
  intro environment
  have hooked : environment.hook = some (.logging strategy) := rfl
  refine ⟨?_, ?_⟩
  · intro fuel function arguments keywords machine result after ended
    exact (callFunction_logs hooked ((bracketing hooked).execute fuel) ended).2.2
  · intro callable arguments outcome ended
    obtain ⟨after, ran, known⟩ := Namespace.call?_ended ended
    rw [← known]
    cases callee : callable.callee with
    | builtin named =>
        obtain ⟨_, _, log, observer, calls⟩ := (bracketing hooked).call _ _ _ _ _ _ ran
        rw [observer]
        exact calls
    | function function =>
        rw [callee] at ran
        obtain ⟨_, _, log, observer, logged⟩ :=
          callFunction_logs hooked ((bracketing hooked).execute _) ran
        rw [observer]
        exact logged

/-- Two functions, of which the second gives back what the first makes of its argument. -/
def relay : Namespace :=
  let inner : Definition :=
    ⟨0, "inner", [⟨"x", none⟩], [.mk 2 false (.giveBack (some (.name "x")))], 1, 2, ["x"]⟩
  let outer : Definition :=
    ⟨1, "outer", [⟨"x", none⟩],
      [.mk 4 false (.giveBack (some (.call (.name "inner") [.positional (.name "x")])))], 3, 4, ["x"]⟩
  let (function, heap) := Heap.empty.newFunction ⟨0, 0, "inner", []⟩
  ⟨0, "", ⟨[inner, outer], []⟩, ⟨[("inner", function)]⟩, heap⟩

/-- The strategy that turns away from the first event, and from nothing else. -/
def Strategy.skipFirst : Strategy := fun log _ _ => if log.isEmpty then .detach else .keep

/-- The hook turns away from the frame of `outer`, and is still told about `inner`. -/
theorem Namespace.call?_relay_bracketed :
    ∃ outcome,
      relay.call? 5 (some (.logging .skipFirst)) [] ⟨"outer", .function ⟨0, 1, "outer", []⟩⟩
        [.bool true] = some outcome ∧
      outcome.observer.map Entry.event = [.call, .call, .line, .exit] ∧
      CallLog 5
        ((Namespace.environment relay.id relay.program 5 (some (.logging .skipFirst))).admission 0
          ⟨0, 1, "outer", []⟩ [.bool true] [])
        outcome.result outcome.observer := by
  have events : (relay.call? 5 (some (.logging .skipFirst)) []
      ⟨"outer", .function ⟨0, 1, "outer", []⟩⟩ [.bool true]).map
        (fun outcome => outcome.observer.map Entry.event) = some [.call, .call, .line, .exit] := by
    decide +kernel
  obtain ⟨outcome, ended, events⟩ := Option.map_eq_some_iff.mp events
  exact ⟨outcome, ended, events, (Namespace.call?_bracketed relay 5 .skipFirst).2 _ _ _ ended⟩

end Stepwise.Run
