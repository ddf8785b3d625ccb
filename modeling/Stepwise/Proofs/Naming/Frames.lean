import Mathlib
import Stepwise.Proofs.Naming.Arguments

/-!
Which names a frame lists.

When a frame is set up it lists its parameters.  From then on it lists what its statements have bound as
well, so what it lists only grows.
-/

namespace Stepwise.Run

open Script Effect

section

variable {definition : Definition} {known : List String}

theorem Accurate.bound {deeds : List Deed} (accurate : Accurate definition known deeds) :
    ∀ name ∈ boundBy deeds, name ∈ definition.locals := by
  induction deeds generalizing known with
  | nil => exact nofun
  | cons deed rest inductionHypothesis =>
      cases deed with
      | reports event view => exact inductionHypothesis accurate.2.2
      | binds name =>
          intro other member
          rcases List.mem_cons.mp member with rfl | member
          · exact accurate.1
          · exact inductionHypothesis accurate.2 other member

theorem Knows.accurate_events {σ : Type} {machine : Machine σ}
    (knows : Knows definition known machine.frame) (environment : Environment σ)
    (events : List Event) :
    Accurate definition known (events.flatMap fun event => reported environment event machine) := by
  induction events with
  | nil => trivial
  | cons event rest inductionHypothesis =>
      rw [List.flatMap_cons, accurate_append, boundBy_reported, List.append_nil]
      exact ⟨knows.accurate environment event, inductionHypothesis⟩

/-- What the view of a frame lists, given the deeds of the frame before it. -/
structure Lists (definition : Definition) (before : List Deed) (view : FrameView) : Prop where
  belongs : view.definition = definition
  /-- Names stand in the order of their declaration. -/
  order : view.names.Sublist definition.locals
  distinct : view.names.Nodup
  /-- A name is listed exactly if it is that of a parameter or was bound. -/
  mem_iff : ∀ name, name ∈ view.names ↔
    name ∈ definition.parameters.map Parameter.name ∨ .binds name ∈ before
  /-- What was listed before is still listed. -/
  grows : ∀ event earlier, .reports event earlier ∈ before → earlier.names.Sublist view.names

theorem Lists.of_accurate (wellFormed : definition.WellFormed) {before later : List Deed}
    {event : Event} {view : FrameView}
    (accurate : Accurate definition (definition.parameters.map Parameter.name)
      (before ++ .reports event view :: later)) : Lists definition before view := by
  obtain ⟨accurateBefore, named, listed, -⟩ := accurate_append.mp accurate
  have parameters : ∀ name ∈ definition.parameters.map Parameter.name, name ∈ definition.locals := by
    intro name member
    rw [wellFormed.locals]
    exact List.mem_append_left _ member
  refine ⟨named, ?_, ?_, fun name => ?_, fun other earlier member => ?_⟩
  · rw [listed]
    exact List.filter_sublist
  · rw [listed]
    exact wellFormed.distinct.filter _
  · rw [listed, List.mem_filter, decide_eq_true_iff, List.mem_append, mem_boundBy]
    refine ⟨And.right, fun given => ⟨?_, given⟩⟩
    rcases given with parameter | bound
    · exact parameters name parameter
    · exact accurateBefore.bound name (mem_boundBy.mpr bound)
  · obtain ⟨first, between, rfl⟩ := List.append_of_mem member
    obtain ⟨-, -, listedEarlier, -⟩ := accurate_append.mp accurateBefore
    rw [listed, listedEarlier]
    refine List.monotone_filter_right _ fun name there => ?_
    rw [decide_eq_true_iff] at there ⊢
    rw [boundBy_append, ← List.append_assoc]
    exact List.mem_append_left _ there

end

section

variable {environment : Environment (List Entry)} {strategy : Strategy}
  (hooked : environment.hook = some (.logging strategy))

include hooked

theorem closing_tells {inner : Machine (List Entry)} {activation : Activation}
    (active : inner.frame.activation = some activation) (caller : Frame)
    (flow : Except RuntimeError Flow) :
    ∃ closing, (inner.returned environment caller (failed flow)).observer = inner.observer ++ closing ∧
      Tells (FrameRun environment) (closingDeeds environment (some (flow, inner))) closing := by
  obtain ⟨closing, events, views, left⟩ := returned_views hooked active caller (failed flow)
  refine ⟨closing, by rw [left], ?_⟩
  simp only [closingDeeds, reported_of_hook hooked active, ← List.map_eq_flatMap, ← events]
  exact .of_view views

variable {definition : Definition} (distinct : definition.locals.Nodup) {known : List String}
  {slots : Array (Option Value)} (knows : Knows definition known (.ofCall definition slots))
  (fuel : Nat) (machine : Machine (List Entry))

include distinct knows

theorem body_recounts :
    let start := machine.activated environment definition slots
    Accurate definition known (deeds environment fuel definition.body start) ∧
      ∀ result after, (level environment fuel).execute definition.body start = some (result, after) →
        Recounted environment definition known (deeds environment fuel definition.body start) start
          after := by
  refine execute_recounts hooked distinct fuel definition.body _ known ?_
  rw [activated_logging hooked]
  exact knows.setTraced _

theorem frameDeeds_accurate :
    Accurate definition known (frameDeeds environment fuel definition slots machine) := by
  obtain ⟨accurate, ends⟩ := body_recounts hooked distinct knows fuel machine
  let set : Machine (List Entry) := { machine with frame := .ofCall definition slots }
  have called : Accurate definition known (reported environment .call set) :=
    Knows.accurate knows environment .call
  refine accurate_append.mpr ⟨called, ?_⟩
  rw [boundBy_reported, List.append_nil]
  refine accurate_append.mpr ⟨accurate, ?_⟩
  unfold closingDeeds
  split
  · rename_i result after ran
    exact (ends result after ran).knows.accurate_events environment _
  · trivial

theorem frameDeeds_told {flow : Except RuntimeError Flow} {inner : Machine (List Entry)}
    (ran : (level environment fuel).execute definition.body
      (machine.activated environment definition slots) = some (flow, inner)) :
    ∃ log, (inner.returned environment machine.frame (failed flow)).observer =
        machine.observer ++ log ∧
      Tells (FrameRun environment) (frameDeeds environment fuel definition slots machine) log := by
  obtain ⟨known', log, told, tells⟩ := (body_recounts hooked distinct knows fuel machine).2 _ _ ran
  obtain ⟨activation, active, -, -⟩ := known'
  obtain ⟨closing, closed, last⟩ := closing_tells hooked active machine.frame flow
  let opening := machine.opening environment strategy definition slots
  have first : Tells (FrameRun environment) [.reports opening.event opening.view] [opening] :=
    .reports .nothing
  refine ⟨[opening] ++ (log ++ closing), ?_, ?_⟩
  · rw [closed, told, activated_logging hooked]
    simp only [List.append_assoc, opening]
  · rw [← ran] at last
    unfold frameDeeds
    rw [reported_of_hook hooked rfl]
    exact first.append (tells.append last)

end

/-- What the frames of an accepted program list, in every run under a hook.

A call of a function that is not refused, at whatever point of a run, sets up a frame.  The first thing
that the frame does is to report that.  Whenever it reports something, what it lists is a part of the
function's locals in the order of their declaration, without duplicates; a name is listed exactly if it
is that of a parameter or a statement of the frame has bound it before; and everything that was listed
before is still listed.  This holds also of runs that fail, or that do not come to an end.  If the call
ends, the hook was told what the frame reports, in this order, and in between what the calls report that
the frame makes.  A call from outside is told as such calls.  The value of an expression, also of a
comprehension, leaves the frame as it was. -/
theorem Namespace.call?_lists (space : Namespace)
    (accepted : Program.parse? space.source = some (.ok space.program)) (callLimit : Nat)
    (strategy : Strategy) :
    let environment :=
      Namespace.environment space.id space.program callLimit (some (Hook.logging strategy))
    (∀ fuel function arguments keywords, ∀ machine : Machine (List Entry), ∀ definition slots,
      environment.admission machine.depth function arguments keywords = .ok (definition, slots) →
      let own := frameDeeds environment fuel definition slots machine
      (∃ view later, own = .reports .call view :: later) ∧
      (∀ before event view later, own = before ++ .reports event view :: later →
        Lists definition before view) ∧
      ∀ result after,
        callFunction environment (level environment fuel) function arguments keywords machine =
          some (result, after) →
        ∃ log, after.observer = machine.observer ++ log ∧ Tells (FrameRun environment) own log) ∧
    (∀ callable arguments outcome,
      space.call? callLimit (some (Hook.logging strategy)) [] callable arguments = some outcome →
      Tells (FrameRun environment) [] outcome.observer) ∧
    ∀ fuel expr, ∀ machine : Machine (List Entry), ∀ result after,
      (level environment fuel).evaluate expr machine = some (result, after) →
      after.frame = machine.frame := by
  intro environment
  have hooked : environment.hook = some (.logging strategy) := rfl
  refine ⟨?_, ?_, ?_⟩
  · intro fuel function arguments keywords machine definition slots admitted own
    obtain ⟨found, -, bound⟩ := Environment.admission_ok admitted
    have member : definition ∈ space.program.functions := List.mem_of_getElem? found
    have wellFormed := Program.wellFormed_of_accepted accepted definition member
    have knows := Knows.of_bindArguments wellFormed bound
    have accurate : Accurate definition _ own :=
      frameDeeds_accurate hooked wellFormed.distinct knows fuel machine
    refine ⟨⟨_, _, rfl⟩, ?_, fun result after ended => ?_⟩
    · intro before event view later same
      rw [same] at accurate
      exact .of_accurate wellFormed accurate
    · rcases callFunction_ended ended with
        ⟨error, refused, -, -⟩ | ⟨_, _, flow, inner, admitted', ran, -, rfl⟩
      · rw [admitted] at refused
        cases refused
      · rw [admitted] at admitted'
        cases admitted'
        exact frameDeeds_told hooked wellFormed.distinct knows fuel machine ran
  · intro callable arguments outcome ended
    obtain ⟨after, ran, known⟩ := Namespace.call?_ended ended
    obtain ⟨-, -, log, told, tells⟩ := (calling hooked).call _ _ _ _ _ _ ran
    rw [← known, told]
    exact tells
  · intro fuel expr machine result after ended
    exact (((calling hooked).levels fuel).evaluate expr machine result after ended).frame

/-- A function with a comprehension over a name that it binds later. -/
def rebinding : Definition :=
  ⟨0, "f", [⟨"x", none⟩],
    [.mk 2 false (.assign [.name "y"]
        (.comprehension (.name "a") [.mk (.name "a") (.name "x") []])),
      .mk 3 false (.assign [.name "a"] (.name "y"))], 1, 3, ["x", "y", "a"]⟩

def rebindingSpace : Namespace :=
  ⟨0, "def f(x):\n  y = [a for a in x]\n  a = y\n", ⟨[rebinding], [.mk 1 false (.define 0)]⟩,
    .empty, .empty⟩

set_option maxRecDepth 5000 in
/-- The name `a` is listed from the second assignment on, and not because of the comprehension. -/
theorem Namespace.call?_lists_rebinding :
    ∃ outcome deeds,
      rebindingSpace.call? 5 (some (.logging .keepAll)) [] ⟨"f", .function ⟨0, 0, "f", []⟩⟩
        [.str "k"] = some outcome ∧
      outcome.observer.map (fun entry => entry.view.names) =
        [["x"], ["x"], ["x", "y"], ["x", "y", "a"]] ∧
      Tells
        (FrameRun (environment rebindingSpace.id rebindingSpace.program 5 (some (.logging .keepAll))))
        deeds outcome.observer ∧
      ∀ before event view later, deeds = before ++ .reports event view :: later →
        Lists rebinding before view := by
  have accepted : Program.parse? rebindingSpace.source = some (.ok rebindingSpace.program) := by cbv
  have listed : (rebindingSpace.call? 5 (some (.logging .keepAll)) []
      ⟨"f", .function ⟨0, 0, "f", []⟩⟩ [.str "k"]).map
        (fun outcome => outcome.observer.map fun entry => entry.view.names) =
      some [["x"], ["x"], ["x", "y"], ["x", "y", "a"]] := by
    decide +kernel
  obtain ⟨outcome, called, listed⟩ := Option.map_eq_some_iff.mp listed
  obtain ⟨after, ran, known⟩ := Namespace.call?_ended called
  obtain ⟨-, lists, told⟩ :=
    (Namespace.call?_lists rebindingSpace accepted 5 .keepAll).1 ampleFuel ⟨0, 0, "f", []⟩
      [.str "k"] [] (.start .empty .empty []) rebinding #[some (.str "k"), none, none] rfl
  obtain ⟨log, same, tells⟩ := told _ _ ran
  rw [known] at same
  exact ⟨outcome, _, called, listed, same ▸ tells, lists⟩

end Stepwise.Run
