import Stepwise.Proofs.Correspondence.Level

/-!
Two runs in lockstep.

The runs may have different hooks, and their frames may differ in whether a hook wants their events.
If the hooks are told the same and answer the same as far as it matters, both runs end, and end in
the same way, or neither does.
-/

namespace Stepwise.Run

open Script Effect

variable {σ τ α : Type}

theorem rel_map {β γ δ : Type} {related : α → β → Prop} {wanted : γ → δ → Prop}
    {first : Option α} {second : Option β} (ended : Option.Rel related first second)
    {change : α → γ} {other : β → δ} (follows : ∀ a b, related a b → wanted (change a) (other b)) :
    Option.Rel wanted (first.map change) (second.map other) := by
  cases ended with
  | none => exact .none
  | some ended => exact .some (follows _ _ ended)

theorem map_eq_of_rel {β γ : Type} {related : α → β → Prop} {first : Option α} {second : Option β}
    (ended : Option.Rel related first second) {change : α → γ} {other : β → γ}
    (same : ∀ a b, related a b → change a = other b) : first.map change = second.map other := by
  cases ended with
  | none => rfl
  | some ended => exact congrArg some (same _ _ ended)

def Frame.code? (frame : Frame) : Option (Definition × Array (Option Value)) :=
  frame.activation.map fun activation => (activation.definition, activation.slots)

/-- Frames that differ at most in whether a hook wants their events. -/
structure Frame.Alike (frame other : Frame) : Prop where
  code : frame.code? = other.code?
  line : frame.line = other.line
  scopes : frame.scopes = other.scopes

namespace Frame

theorem Alike.refl (frame : Frame) : frame.Alike frame := ⟨rfl, rfl, rfl⟩

theorem code?_setTraced (frame : Frame) (traced : Bool) :
    (frame.setTraced traced).code? = frame.code? := by
  obtain ⟨activation, line, scopes⟩ := frame
  cases activation <;> rfl

theorem Alike.setTraced {frame other : Frame} (alike : frame.Alike other) (first second : Bool) :
    (frame.setTraced first).Alike (other.setTraced second) :=
  ⟨by rw [code?_setTraced, code?_setTraced, alike.code], alike.line, alike.scopes⟩

theorem Alike.activation {frame other : Frame} (alike : frame.Alike other) :
    (frame.activation = none ∧ other.activation = none) ∨
      ∃ definition slots traced otherTraced,
        frame.activation = some ⟨definition, slots, traced⟩ ∧
          other.activation = some ⟨definition, slots, otherTraced⟩ := by
  have same := alike.code
  unfold code? at same
  cases running : frame.activation with
  | none =>
      rw [running] at same
      exact .inl ⟨rfl, Option.map_eq_none_iff.mp same.symm⟩
  | some activation =>
      rw [running] at same
      obtain ⟨otherActivation, found, equal⟩ := Option.map_eq_some_iff.mp same.symm
      obtain ⟨definition, slots, traced⟩ := activation
      obtain ⟨otherDefinition, otherSlots, otherTraced⟩ := otherActivation
      simp only [Prod.mk.injEq] at equal
      obtain ⟨rfl, rfl⟩ := equal
      exact .inr ⟨_, _, _, _, rfl, found⟩

theorem Alike.local?_isSome {frame other : Frame} (alike : frame.Alike other) (name : String) :
    (frame.local? name).isSome = (other.local? name).isSome := by
  unfold local?
  rcases alike.activation with ⟨first, second⟩ | ⟨definition, slots, _, _, first, second⟩
  · rw [first, second]
  · rw [first, second]
    cases found : definition.locals.idxOf? name <;> simp [Activation.position?, found]

theorem Alike.bindingOf? {frame other : Frame} (alike : frame.Alike other) (globals : Bindings)
    (name : String) : bindingOf? frame globals name = Run.bindingOf? other globals name := by
  unfold Run.bindingOf? local?
  rw [alike.scopes]
  rcases alike.activation with ⟨first, second⟩ | ⟨definition, slots, _, _, first, second⟩
  · rw [first, second]
  · rw [first, second]
    cases found : definition.locals.idxOf? name <;> simp [Activation.position?, found]

end Frame

/-- Machines that agree on everything but their hooks.  `link` relates what the hooks know.  If the
coupling is `strict`, the hooks want the events of the same frames. -/
structure Coupled (strict : Prop) (link : σ → τ → Prop) (machine : Machine σ)
    (other : Machine τ) : Prop where
  heap : machine.heap = other.heap
  globals : machine.globals = other.globals
  output : machine.output = other.output
  depth : machine.depth = other.depth
  frame : machine.frame.Alike other.frame
  traced : strict → machine.frame.isTraced = other.frame.isTraced
  observer : link machine.observer other.observer

/-- Two runs end alike: neither ends, or both do with the same result in coupled machines. -/
def Together (strict : Prop) (link : σ → τ → Prop) :
    Option (Except RuntimeError α × Machine σ) → Option (Except RuntimeError α × Machine τ) → Prop :=
  Option.Rel fun first second => first.1 = second.1 ∧ Coupled strict link first.2 second.2

def lockstep (strict : Prop) (link : σ → τ → Prop) : Congruence σ τ where
  Relates first second := ∀ machine other, Coupled strict link machine other →
    Together strict link (first machine) (second other)
  pure value machine other coupled := .some ⟨rfl, coupled⟩
  bind := by
    intro α β first second firstNext secondNext related next machine other coupled
    rw [bind_apply, bind_apply]
    have ended := related machine other coupled
    cases one : first machine with
    | none =>
        rw [one] at ended
        cases two : second other with
        | none => exact .none
        | some _ => rw [two] at ended; cases ended
    | some after =>
        rw [one] at ended
        cases two : second other with
        | none => rw [two] at ended; cases ended
        | some otherAfter =>
            rw [two] at ended
            obtain ⟨result, after⟩ := after
            obtain ⟨otherResult, otherAfter⟩ := otherAfter
            cases ended with
            | some ended =>
                obtain ⟨rfl, coupled⟩ := ended
                cases result with
                | ok value => exact next value after otherAfter coupled
                | error error => exact .some ⟨rfl, coupled⟩
  raise error machine other coupled := .some ⟨rfl, coupled⟩
  exhausted machine other _ := .none
  onHeap := by
    intro α action _ machine other coupled
    rw [onHeap_apply, onHeap_apply, coupled.heap]
    cases action other.heap with
    | none => exact .none
    | some ended => exact .some ⟨rfl, { coupled with heap := rfl }⟩

/-- Two environments that differ in their hooks, which keep coupled machines coupled. -/
structure Coupling (environment : Environment σ) (other : Environment τ) (strict : Prop)
    (link : σ → τ → Prop) : Prop where
  namespaceId : environment.namespaceId = other.namespaceId
  functions : environment.functions = other.functions
  callLimit : environment.callLimit = other.callLimit
  reachLine (line : Nat) {machine : Machine σ} {otherMachine : Machine τ} :
    Coupled strict link machine otherMachine →
      Coupled strict link (machine.reachLine environment line) (otherMachine.reachLine other line)
  enter {machine : Machine σ} {otherMachine : Machine τ} :
    Coupled strict link machine otherMachine →
      Coupled strict link (machine.enter environment) (otherMachine.enter other)
  leave (failed : Bool) {machine : Machine σ} {otherMachine : Machine τ} :
    Coupled strict link machine otherMachine →
      Coupled strict link (machine.leave environment failed) (otherMachine.leave other failed)

namespace Coupled

variable {strict : Prop} {link : σ → τ → Prop} {machine : Machine σ} {other : Machine τ}

theorem withFrame (coupled : Coupled strict link machine other) {frame otherFrame : Frame}
    (alike : frame.Alike otherFrame) (traced : strict → frame.isTraced = otherFrame.isTraced) :
    Coupled strict link { machine with frame := frame } { other with frame := otherFrame } :=
  { coupled with frame := alike, traced := traced }

theorem withScopes (coupled : Coupled strict link machine other) (scopes : List Bindings) :
    Coupled strict link { machine with frame := { machine.frame with scopes := scopes } }
      { other with frame := { other.frame with scopes := scopes } } :=
  coupled.withFrame ⟨coupled.frame.code, coupled.frame.line, rfl⟩ coupled.traced

theorem withLine (coupled : Coupled strict link machine other) (line : Nat) :
    Coupled strict link { machine with frame := { machine.frame with line := line } }
      { other with frame := { other.frame with line := line } } :=
  coupled.withFrame ⟨coupled.frame.code, rfl, coupled.frame.scopes⟩ coupled.traced

theorem withTraced (coupled : Coupled strict link machine other) (traced : Bool) :
    Coupled strict link { machine with frame := machine.frame.setTraced traced }
      { other with frame := other.frame.setTraced traced } := by
  refine coupled.withFrame (coupled.frame.setTraced traced traced) fun _ => ?_
  rw [Frame.isTraced_setTraced, Frame.isTraced_setTraced]
  rcases coupled.frame.activation with ⟨first, second⟩ | ⟨_, _, _, _, first, second⟩ <;>
    rw [first, second]
  rfl

theorem binding?_eq (coupled : Coupled strict link machine other) (name : String) :
    bindingOf? machine.frame machine.globals name = bindingOf? other.frame other.globals name := by
  rw [coupled.globals]
  exact coupled.frame.bindingOf? other.globals name

theorem load (coupled : Coupled strict link machine other) (name : String) :
    Together strict link (Effect.load name machine) (Effect.load name other) := by
  simp only [Effect.load, bind_apply, Effect.binding?, coupled.binding?_eq]
  cases bindingOf? other.frame other.globals name with
  | some value => exact .some ⟨rfl, coupled⟩
  | none =>
      simp only [bind_apply, Effect.frame, coupled.frame.local?_isSome]
      split
      · exact .some ⟨rfl, coupled⟩
      · cases Builtin.ofName? name <;> exact .some ⟨rfl, coupled⟩

theorem store (coupled : Coupled strict link machine other) (name : String) (value : Value) :
    Together strict link (Effect.store name value machine) (Effect.store name value other) := by
  simp only [Effect.store, bind_apply, Effect.frame]
  rcases coupled.frame.activation with ⟨first, second⟩ | ⟨definition, slots, _, _, first, second⟩
  · rw [first, second]
    exact .some ⟨rfl, { coupled with globals := by simp only [coupled.globals] }⟩
  · rw [first, second]
    simp only [Activation.position?]
    cases definition.locals.idxOf? name with
    | none => exact .some ⟨rfl, coupled⟩
    | some position =>
        simp only
        split
        · refine .some ⟨rfl, coupled.withFrame ⟨?_, coupled.frame.line, coupled.frame.scopes⟩ ?_⟩
          · simp only [Frame.code?, first, second, Option.map_some]
          · simpa [Frame.isTraced, first, second] using coupled.traced
        · exact .some ⟨rfl, coupled⟩

end Coupled

namespace Coupling

variable {environment : Environment σ} {other : Environment τ} {strict : Prop}
  {link : σ → τ → Prop} (coupling : Coupling environment other strict link)

include coupling

theorem admission_eq (depth : Nat) (function : FunctionObject) (arguments : List Value)
    (keywords : Keywords) :
    environment.admission depth function arguments keywords =
      other.admission depth function arguments keywords := by
  simp only [Environment.admission, coupling.namespaceId, coupling.functions, coupling.callLimit]

theorem activated {machine : Machine σ} {otherMachine : Machine τ}
    (coupled : Coupled strict link machine otherMachine) (definition : Definition)
    (slots : Array (Option Value)) :
    Coupled strict link (machine.activated environment definition slots)
      (otherMachine.activated other definition slots) := by
  have entered := coupling.enter
    (coupled.withFrame (Frame.Alike.refl (.ofCall definition slots)) fun _ => rfl)
  exact { entered with depth := congrArg (· + 1) entered.depth }

theorem returned {machine : Machine σ} {otherMachine : Machine τ}
    (coupled : Coupled strict link machine otherMachine) {caller otherCaller : Frame}
    (alike : caller.Alike otherCaller) (traced : strict → caller.isTraced = otherCaller.isTraced)
    (failed : Bool) :
    Coupled strict link (machine.returned environment caller failed)
      (otherMachine.returned other otherCaller failed) := by
  have lowered : Coupled strict link { machine with depth := machine.depth - 1 }
      { otherMachine with depth := otherMachine.depth - 1 } :=
    { coupled with depth := congrArg (· - 1) coupled.depth }
  exact (coupling.leave failed lowered).withFrame alike traced

theorem activate {below : Level σ} {otherBelow : Level τ} (definition : Definition)
    (executes : (lockstep strict link).Relates (below.execute definition.body)
      (otherBelow.execute definition.body))
    (slots : Array (Option Value)) :
    (lockstep strict link).Relates (Run.activate environment below definition slots)
      (Run.activate other otherBelow definition slots) := by
  intro machine otherMachine coupled
  rw [activate_apply, activate_apply]
  refine rel_map (executes _ _ (coupling.activated coupled definition slots)) ?_
  rintro first second ⟨same, inner⟩
  refine ⟨congrArg (Except.map Flow.value) same, ?_⟩
  simp only [same]
  exact coupling.returned inner coupled.frame coupled.traced _

def correspondence : Correspondence environment other where
  expression := lockstep strict link
  comprehension := lockstep strict link
  binding := lockstep strict link
  statement := lockstep strict link
  namespaceId := coupling.namespaceId
  functions := coupling.functions
  comprehension_of_expression related := related
  binding_of_expression related := related
  statement_of_binding related := related
  binding? name machine other coupled := .some ⟨congrArg _ (coupled.binding?_eq name), coupled⟩
  load name machine other coupled := coupled.load name
  write text machine other coupled :=
    .some ⟨rfl, { coupled with output := congrArg (· ++ text) coupled.output }⟩
  bindVariable name value := by
    intro machine other coupled
    simp only [Effect.bindVariable, Effect.modifyFrame, coupled.frame.scopes]
    cases other.frame.scopes with
    | nil => exact .some ⟨rfl, coupled⟩
    | cons scope outer => exact .some ⟨rfl, coupled.withScopes (scope.set name value :: outer)⟩
  inScope := by
    intro α first second related machine other coupled
    rw [inScope_apply, inScope_apply, coupled.frame.scopes]
    refine rel_map (related _ _ (coupled.withScopes (.empty :: other.frame.scopes))) ?_
    rintro one two ⟨same, inner⟩
    rw [inner.frame.scopes]
    exact ⟨same, inner.withScopes _⟩
  store name value machine other coupled := coupled.store name value
  moveToLine line machine other coupled := .some ⟨rfl, coupled.withLine line⟩
  reportLine line := by
    intro machine other coupled
    rw [reportLine_apply, reportLine_apply]
    exact .some ⟨rfl, coupling.reachLine line coupled⟩
  callFunction := by
    intro fuel function arguments keywords executes machine other coupled
    rw [callFunction_apply, callFunction_apply, coupled.depth, coupling.admission_eq]
    split
    · exact .some ⟨rfl, coupled⟩
    · exact coupling.activate _ (executes _) _ machine other coupled

theorem call (callee : Callee) (fuel : Nat) (arguments : List Value) (heap : Heap)
    (globals : Bindings) {observer : σ} {otherObserver : τ} (linked : link observer otherObserver) :
    Together strict link
      (callee.call environment fuel arguments (Machine.start heap globals observer))
      (callee.call other fuel arguments (Machine.start heap globals otherObserver)) :=
  coupling.correspondence.call callee fuel arguments _ _
    ⟨rfl, rfl, rfl, rfl, Frame.Alike.refl _, fun _ => rfl, linked⟩

end Coupling

structure Outcome.Linked (link : σ → τ → Prop) (outcome : Outcome σ) (other : Outcome τ) : Prop where
  result : outcome.result = other.result
  observer : link outcome.observer other.observer
  output : outcome.output = other.output
  heap : outcome.heap = other.heap

/-- Calls in a namespace under coupled hooks have linked outcomes, or both have none. -/
theorem Coupling.call? {space : Namespace} {callLimit : Nat} {hook : Option (Hook σ)}
    {otherHook : Option (Hook τ)} {strict : Prop} {link : σ → τ → Prop}
    (coupling : Coupling (Namespace.environment space.id space.program callLimit hook)
      (Namespace.environment space.id space.program callLimit otherHook) strict link)
    {observer : σ} {otherObserver : τ} (linked : link observer otherObserver)
    (callable : Callable) (arguments : List Value) :
    Option.Rel (Outcome.Linked link) (space.call? callLimit hook observer callable arguments)
      (space.call? callLimit otherHook otherObserver callable arguments) := by
  have ended := coupling.call callable.callee ampleFuel arguments space.heap space.globals linked
  rw [Namespace.call?_eq_map, Namespace.call?_eq_map]
  refine rel_map ended ?_
  rintro first second ⟨result, coupled⟩
  exact ⟨result, coupled.observer, congrArg outputLines coupled.output, coupled.heap⟩

def Hook.Agrees (hook : Hook σ) (other : Hook τ) (link : σ → τ → Prop) : Prop :=
  ∀ view event state otherState, link state otherState →
    (hook.notify view event state).1 = (other.notify view event otherState).1 ∧
      link (hook.notify view event state).2 (other.notify view event otherState).2

namespace Hook.Agrees

variable {hook : Hook σ} {otherHook : Hook τ} {link : σ → τ → Prop}
  (agree : hook.Agrees otherHook link) {environment : Environment σ} {other : Environment τ}
  (namespaceId : environment.namespaceId = other.namespaceId)
  (hooked : environment.hook = some hook) (otherHooked : other.hook = some otherHook)

include agree namespaceId hooked otherHooked

theorem tell {machine : Machine σ} {otherMachine : Machine τ}
    (coupled : Coupled True link machine otherMachine) (event : Event) :
    (machine.tell environment event).1 = (otherMachine.tell other event).1 ∧
      Coupled True link (machine.tell environment event).2 (otherMachine.tell other event).2 := by
  unfold Machine.tell
  rw [hooked, otherHooked]
  rcases coupled.frame.activation with ⟨first, second⟩ | ⟨definition, slots, _, _, first, second⟩
  · rw [first, second]
    exact ⟨rfl, coupled⟩
  · rw [first, second]
    simp only [coupled.heap, coupled.frame.line, namespaceId]
    obtain ⟨answer, linked⟩ := agree _ event _ _ coupled.observer
    exact ⟨answer, { coupled with heap := rfl, observer := linked }⟩

theorem coupling (functions : environment.functions = other.functions)
    (callLimit : environment.callLimit = other.callLimit) :
    Coupling environment other True link where
  namespaceId := namespaceId
  functions := functions
  callLimit := callLimit
  reachLine := by
    intro line machine otherMachine coupled
    obtain ⟨answer, told⟩ :=
      agree.tell namespaceId hooked otherHooked (coupled.withLine line) .line
    unfold Machine.reachLine
    simp only [coupled.traced trivial, answer]
    split
    · split
      · exact told.withTraced false
      · exact told
    · exact coupled.withLine line
  enter := by
    intro machine otherMachine coupled
    obtain ⟨answer, told⟩ := agree.tell namespaceId hooked otherHooked coupled .call
    unfold Machine.enter
    simp only [hooked, otherHooked, Option.isSome_some, if_true, answer]
    exact told.withTraced _
  leave := by
    intro failed machine otherMachine coupled
    unfold Machine.leave
    rw [coupled.traced trivial]
    split
    · cases failed with
      | false => exact (agree.tell namespaceId hooked otherHooked coupled .exit).2
      | true =>
          have raised := (agree.tell namespaceId hooked otherHooked coupled .exception).2
          exact (agree.tell namespaceId hooked otherHooked raised .exit).2
    · exact coupled

end Hook.Agrees

end Stepwise.Run
