import Stepwise.Exchange.Response
import Stepwise.Proofs.Sources

/-!
Responses do not depend on earlier requests.

Two tracers with the same settings answer a request alike, whatever they have answered before: they
number its namespace differently and keep different excerpts, and neither shows in the response.
-/

namespace Stepwise.Record

open Script Run

theorem captureBindings_rehomed (home : Nat) (heap : Heap) (depth : Nat)
    (bindings : List (String × Value)) :
    captureBindings (heap.rehomed home) depth bindings = captureBindings heap depth bindings := by
  simp only [captureBindings, captureOrText_rehomed]

theorem rehomed_belongs {home other : Nat} {functions : List Definition} {view : FrameView}
    (belongs : view.Belongs home functions) : (view.rehomed other).Belongs other functions := by
  refine ⟨rfl, belongs.definition, fun function member => ?_⟩
  obtain ⟨_, _, rfl⟩ := Array.mem_map.mp member
  rfl

/-- Recordings with the same steps, each with excerpts that are right for its own namespace. -/
structure Recording.Alike (space : Namespace) (bound : Nat) (other : Namespace) (otherBound : Nat)
    (recording partner : Recording) : Prop where
  trace : partner.trace = recording.trace
  keeps : recording.excerpts.Keeps bound [space]
  otherKeeps : partner.excerpts.Keeps otherBound [other]

theorem recorders_agree {space : Namespace} (sound : space.program.Sound space.source)
    {other bound otherBound : Nat} (below : space.id < bound) (otherBelow : other < otherBound)
    (depth : Nat) :
    HooksAgree space.id other space.program.functions (Definition.Covers space.source)
      (Recording.Alike space bound (space.rehomed other) otherBound)
      (some (recorder space depth)) (some (recorder (space.rehomed other) depth)) := by
  intro view event recording partner alike belongs _
  cases event with
  | line =>
      have belongsToo : (view.rehomed other).Belongs other space.program.functions :=
        rehomed_belongs belongs
      have single : ∀ (space : Namespace), ∀ other ∈ [space], space.id = other.id →
          space.source = other.source ∧ space.program = other.program := by
        intro space other member _
        rw [List.mem_singleton.mp member]
        exact ⟨rfl, rfl⟩
      refine ⟨rfl, ?_, alike.keeps.addLine below (single space) belongs depth,
        alike.otherKeeps.addLine otherBelow (single (space.rehomed other)) belongsToo depth⟩
      have first := Recording.addLine_trace (alike.keeps.faithful space List.mem_cons_self) sound belongs
        depth
      have second := Recording.addLine_trace
        (alike.otherKeeps.faithful (space.rehomed other) List.mem_cons_self) sound belongsToo depth
      refine second.trans (Eq.trans ?_ first.symm)
      rw [alike.trace]
      exact congrArg (fun bindings => (recording.trace.record _ _ bindings).2)
        (captureBindings_rehomed other view.heap depth view.locals)
  | _ => exact ⟨rfl, alike⟩

namespace Tracer

structure Clear (settings : Settings) (tracer : Tracer) : Prop where
  settings : tracer.settings = settings
  below : tracer.excerpts.Below tracer.nextNamespace

/-- A tracer before its first run, for which the next namespace has a number. -/
def starting (settings : Settings) (number : Nat) : Tracer :=
  { ofSettings settings with nextNamespace := number }

theorem starting_clear (settings : Settings) (number : Nat) :
    (starting settings number).Clear settings := ⟨rfl, List.forall_mem_nil _⟩

theorem Clear.passing {settings : Settings} {tracer : Tracer} (clear : tracer.Clear settings)
    (count : Nat) : (tracer.passing count).Clear settings :=
  ⟨clear.settings, clear.below.mono (Nat.le_add_right _ _)⟩

section

variable {settings : Settings} {tracer partner : Tracer} (clear : tracer.Clear settings)
  (partnerClear : partner.Clear settings) {space : Namespace}

include clear partnerClear

/-- Recordings start alike: nothing that either tracer keeps is for a namespace as late as these. -/
theorem Clear.alike (id : space.id = tracer.nextNamespace) :
    Recording.Alike space (tracer.nextNamespace + 1)
      (space.rehomed partner.nextNamespace) (partner.nextNamespace + 1)
      tracer.recording partner.recording := by
  have fresh : tracer.excerpts.Faithful space := clear.below.faithful (Nat.le_of_eq id.symm)
  have partnerFresh : partner.excerpts.Faithful (space.rehomed partner.nextNamespace) :=
    partnerClear.below.faithful (Nat.le_refl _)
  exact ⟨rfl, ⟨(clear.passing 1).below, List.forall_mem_singleton.mpr fresh⟩,
    ⟨(partnerClear.passing 1).below, List.forall_mem_singleton.mpr partnerFresh⟩⟩

theorem run?_twin {made : Nat} (sound : space.Sound made) (id : space.id = tracer.nextNamespace)
    {callable : Callable}
    (offered : callable.callee.Sound space.id space.program.functions.length made)
    {argument : Value} (within : argument.Within made) :
    Option.Rel (fun first second => second.result = first.result ∧ first.tracer.Clear settings ∧
        second.tracer.Clear settings)
      ((tracer.passing 1).run? space callable argument)
      ((partner.passing 1).run? (space.rehomed partner.nextNamespace)
        (callable.rehomed partner.nextNamespace) argument) := by
  have below : space.id < tracer.nextNamespace + 1 := id ▸ Nat.lt_succ_self _
  have agree := recorders_agree sound.program below (Nat.lt_succ_self partner.nextNamespace)
    settings.snapshotDepth
  have ended := sound.call?_twin settings.callLimit partner.nextNamespace agree
    (clear.alike partnerClear id) offered (List.forall_mem_singleton.mpr within)
  have clear := clear.passing 1
  have partnerClear := partnerClear.passing 1
  rw [run?_eq_map, run?_eq_map, clear.settings, partnerClear.settings]
  refine rel_map ended fun outcome partnerOutcome twin => ⟨?_, ⟨?_, ?_⟩, ⟨?_, ?_⟩⟩
  · unfold conclude
    rw [twin.result, twin.heap, twin.output, twin.observer.trace, clear.settings,
      partnerClear.settings]
    cases outcome.result with
    | error error => rfl
    | ok value => simp only [captureOrText_rehomed]
  · rw [conclude_settings, clear.settings]
  · rw [conclude_excerpts, conclude_nextNamespace]
    exact twin.observer.keeps.below
  · rw [conclude_settings, partnerClear.settings]
  · rw [conclude_excerpts, conclude_nextNamespace]
    exact twin.observer.otherKeeps.below

end

end Tracer

end Stepwise.Record

namespace Stepwise.Exchange

open Run Record

structure Answered {α : Type} (settings : Settings) (first second : α × Tracer) : Prop where
  same : second.1 = first.1
  clear : first.2.Clear settings
  otherClear : second.2.Clear settings

section

variable {settings : Settings} {tracer partner : Tracer} (clear : tracer.Clear settings)
  (partnerClear : partner.Clear settings)

include clear partnerClear

theorem execute?_alike (request : Request) :
    Option.Rel (Answered settings) (execute? tracer request) (execute? partner request) := by
  unfold execute?
  split
  · exact .some ⟨rfl, clear, partnerClear⟩
  have compiled := Namespace.compile?_twin request.code tracer.nextNamespace partner.nextNamespace
    settings.callLimit
  rw [Tracer.compile?_eq_map, Tracer.compile?_eq_map, clear.settings, partnerClear.settings]
  generalize Namespace.compile? tracer.nextNamespace request.code _ = first at compiled
  generalize Namespace.compile? partner.nextNamespace request.code _ = second at compiled
  have onward := clear.passing 1
  have partnerOnward := partnerClear.passing 1
  cases compiled with
  | none => exact .none
  | @some result _ compiled =>
      obtain ⟨rfl, loaded⟩ := compiled
      cases result with
      | error error => exact .some ⟨rfl, onward, partnerOnward⟩
      | ok space =>
          obtain ⟨⟨made, sound⟩, id, -⟩ := loaded
          simp only [Option.map_some, Except.map, sound.callable_rehomed]
          cases found : space.callable request.functionName with
          | error error => exact .some ⟨rfl, onward, partnerOnward⟩
          | ok callable =>
              obtain ⟨within, given⟩ := sound.given request.argument
              have traced := Tracer.run?_twin clear partnerClear given id (sound.callable found) within
              simp only [Namespace.rehomed, Value.ofJson_rehomed] at traced ⊢
              generalize Tracer.run? (tracer.passing 1) _ _ _ = first at traced ⊢
              generalize Tracer.run? (partner.passing 1) _ _ _ = second at traced ⊢
              cases traced with
              | none => exact .none
              | some traced =>
                  obtain ⟨same, clear, partnerClear⟩ := traced
                  exact .some ⟨congrArg (Except.mapError Failure.execution) same, clear, partnerClear⟩

theorem handleText?_alike (wording : Wording) (text : String) :
    Option.Rel (Answered settings) (handleText? tracer text wording)
      (handleText? partner text wording) := by
  unfold handleText?
  cases Request.ofText text with
  | error problem => exact .some ⟨rfl, clear, partnerClear⟩
  | ok request =>
      refine rel_map (execute?_alike clear partnerClear request) ?_
      exact fun _ _ answered =>
        ⟨congrArg Response.ofResult answered.same, answered.clear, answered.otherClear⟩

end

/-- The responses to requests that come one after another.  Before each of them, so many namespaces
have been numbered elsewhere. -/
def handleAll? (wording : Wording) (tracer : Tracer) : List (Nat × String) → Option (List Response)
  | [] => some []
  | (passed, text) :: rest =>
      match handleText? (tracer.passing passed) text wording with
      | none => none
      | some (response, after) =>
          (handleAll? wording after rest).map fun others => response :: others

/-- Requests that come one after another are answered as if each came alone.

The response to each is the one that another tracer with the same settings gives to it as its first
request, whatever the numbers of their namespaces are and however what is no request is refused; and if
a request is never answered, it is one that is not answered alone. -/
theorem handleAll?_eq_mapM (wording : Wording) (settings : Settings) (first fresh : Nat)
    (requests : List (Nat × String)) :
    handleAll? wording (.starting settings first) requests =
      requests.mapM fun request =>
        (handleText? (.starting settings fresh) request.2 wording).map Prod.fst := by
  suffices onward : ∀ tracer : Tracer, tracer.Clear settings →
      handleAll? wording tracer requests = _ from onward _ (Tracer.starting_clear settings first)
  induction requests with
  | nil => exact fun _ _ => rfl
  | cons request rest inductionHypothesis =>
      intro tracer clear
      have answered := handleText?_alike (Tracer.starting_clear settings fresh)
        (clear.passing request.1) wording request.2
      rw [List.mapM_cons]
      unfold handleAll?
      generalize handleText? (Tracer.starting settings fresh) request.2 wording = alone at answered ⊢
      generalize handleText? (tracer.passing request.1) request.2 wording = inTurn at answered ⊢
      cases answered with
      | none => rfl
      | some answered =>
          obtain ⟨same, -, clear⟩ := answered
          simp only [inductionHypothesis _ clear, same]
          exact Option.map_eq_bind

end Stepwise.Exchange
