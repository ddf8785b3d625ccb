import Stepwise.Run.Namespace

/-!
What effects do to a machine.

The effects that frames are made of never fail and never run out of fuel.  Each is given here as a
function of the machine, so that a call is one equation about the run of its body.
-/

namespace Stepwise.Run

open Script

variable {σ α β : Type}

namespace Effect

theorem pure_apply (value : α) (machine : Machine σ) :
    (pure value : Effect σ α) machine = some (.ok value, machine) := rfl

theorem throw_apply (error : RuntimeError) (machine : Machine σ) :
    (throw error : Effect σ α) machine = some (.error error, machine) := rfl

theorem get_apply (machine : Machine σ) :
    (get : Effect σ (Machine σ)) machine = some (.ok machine, machine) := rfl

theorem bind_apply (effect : Effect σ α) (next : α → Effect σ β) (machine : Machine σ) :
    (effect >>= next) machine =
      match effect machine with
      | none => none
      | some (.ok value, after) => next value after
      | some (.error error, after) => some (.error error, after) := by
  show (StateT.bind effect _ : StateT (Machine σ) Option (Except RuntimeError β)) machine = _
  show Option.bind (effect machine) _ = _
  cases effect machine with
  | none => rfl
  | some ended =>
      obtain ⟨result, after⟩ := ended
      cases result <;> rfl

/-- A sequence fails with its first part, or ends like its second one. -/
theorem bind_ended {effect : Effect σ α} {next : α → Effect σ β} {machine after : Machine σ}
    {result : Except RuntimeError β} (ended : (effect >>= next) machine = some (result, after)) :
    (∃ error, effect machine = some (.error error, after) ∧ result = .error error) ∨
      ∃ value middle, effect machine = some (.ok value, middle) ∧
        next value middle = some (result, after) := by
  rw [bind_apply] at ended
  cases first : effect machine with
  | none => rw [first] at ended; cases ended
  | some reached =>
      obtain ⟨firstResult, middle⟩ := reached
      rw [first] at ended
      cases firstResult with
      | ok value => exact .inr ⟨value, middle, rfl, ended⟩
      | error error =>
          cases ended
          exact .inl ⟨error, rfl, rfl⟩

/-- A sequence gives a value exactly if it goes through both parts. -/
theorem bind_ok_iff {effect : Effect σ α} {next : α → Effect σ β} {machine after : Machine σ}
    {value : β} :
    (effect >>= next) machine = some (.ok value, after) ↔
      ∃ first middle, effect machine = some (.ok first, middle) ∧
        next first middle = some (.ok value, after) := by
  refine ⟨fun ended => ?_, ?_⟩
  · rcases bind_ended ended with ⟨error, -, impossible⟩ | found
    · cases impossible
    · exact found
  · rintro ⟨first, middle, reached, ended⟩
    rw [bind_apply, reached]
    exact ended

theorem onHeap_apply (action : Action α) (machine : Machine σ) :
    onHeap action machine =
      (action machine.heap).map fun ended => (ended.1, { machine with heap := ended.2 }) := by
  obtain ⟨heap, globals, output, observer, depth, frame⟩ := machine
  unfold onHeap
  simp only
  cases action heap <;> rfl

def inScope (effect : Effect σ α) : Effect σ α := do
  openScope
  let result ← outcome effect
  closeScope
  resume result

theorem inScope_apply (effect : Effect σ α) (machine : Machine σ) :
    inScope effect machine =
      (effect { machine with
        frame := { machine.frame with scopes := .empty :: machine.frame.scopes } }).map
        fun ended => (ended.1, { ended.2 with
          frame := { ended.2.frame with scopes := ended.2.frame.scopes.tail } }) := by
  simp only [inScope, bind_apply, openScope, closeScope, modifyFrame, outcome]
  cases effect _ <;> rfl

end Effect

theorem evaluateComprehension_eq (below : Level σ) (fuel : Nat) (element : Expr)
    (clauses : List Clause) :
    evaluateComprehension below fuel element clauses = (do
      let values ← Effect.inScope (collectClauses below fuel element clauses #[])
      Effect.onHeap (Action.newList values.toList)) := by
  simp only [evaluateComprehension, Effect.inScope, bind_assoc]

namespace Frame

def definition? (frame : Frame) : Option Definition := frame.activation.map Activation.definition

theorem definition?_setTraced (frame : Frame) (traced : Bool) :
    (frame.setTraced traced).definition? = frame.definition? := by
  obtain ⟨activation, line, scopes⟩ := frame
  cases activation <;> rfl

theorem isTraced_setTraced (frame : Frame) (traced : Bool) :
    (frame.setTraced traced).isTraced = (traced && frame.activation.isSome) := by
  obtain ⟨activation, line, scopes⟩ := frame
  cases activation <;> simp [setTraced, isTraced]

theorem isTraced_ofCall (definition : Definition) (slots : Array (Option Value)) (traced : Bool) :
    ((Frame.ofCall definition slots).setTraced traced).isTraced = traced := rfl

theorem setTraced_of_isTraced {frame : Frame} (traced : frame.isTraced = true) :
    frame.setTraced true = frame := by
  obtain ⟨activation, line, scopes⟩ := frame
  cases activation with
  | none => rfl
  | some activation =>
      obtain ⟨definition, slots, wants⟩ := activation
      cases traced
      rfl

theorem activation_of_isTraced {frame : Frame} (traced : frame.isTraced = true) :
    ∃ activation, frame.activation = some activation ∧ activation.traced = true := by
  unfold isTraced at traced
  cases running : frame.activation with
  | none => rw [running] at traced; cases traced
  | some activation =>
      rw [running] at traced
      exact ⟨activation, rfl, traced⟩

theorem activation_of_definition? {frame : Frame} {definition : Definition}
    (named : frame.definition? = some definition) :
    ∃ activation, frame.activation = some activation ∧ activation.definition = definition :=
  Option.map_eq_some_iff.mp named

end Frame

/-- What the hook answers to an event of the running frame, and the machine after it was told. -/
def Machine.tell (environment : Environment σ) (event : Event) (machine : Machine σ) :
    Disposition × Machine σ :=
  match environment.hook, machine.frame.activation with
  | some hook, some activation =>
      let answered := hook.notify
        ⟨machine.heap, environment.namespaceId, activation.definition, activation.slots,
          machine.frame.line⟩ event machine.observer
      (answered.1, { machine with observer := answered.2 })
  | _, _ => (.keep, machine)

theorem report_apply (environment : Environment σ) (event : Event) (machine : Machine σ) :
    report environment event machine =
      some (.ok (machine.tell environment event).1, (machine.tell environment event).2) := by
  unfold report Machine.tell
  cases environment.hook with
  | none => rfl
  | some hook => cases machine.frame.activation <;> rfl

theorem Machine.tell_snd (environment : Environment σ) (event : Event) (machine : Machine σ) :
    (machine.tell environment event).2 =
      { machine with observer := (machine.tell environment event).2.observer } := by
  unfold Machine.tell
  split <;> rfl

theorem Machine.tell_of_no_hook {environment : Environment σ} (bare : environment.hook = none)
    (event : Event) (machine : Machine σ) : machine.tell environment event = (.keep, machine) := by
  simp only [Machine.tell, bare]

/-- The machine after its frame has come to a line, which the hook is told if it wants to know. -/
def Machine.reachLine (environment : Environment σ) (line : Nat) (machine : Machine σ) :
    Machine σ :=
  let moved : Machine σ := { machine with frame := { machine.frame with line := line } }
  if machine.frame.isTraced then
    let told := moved.tell environment .line
    if told.1 = .detach then { told.2 with frame := told.2.frame.setTraced false } else told.2
  else moved

theorem Machine.reachLine_of_untraced (environment : Environment σ) (line : Nat)
    {machine : Machine σ} (untraced : machine.frame.isTraced = false) :
    machine.reachLine environment line =
      { machine with frame := { machine.frame with line := line } } := by
  unfold Machine.reachLine
  simp only [untraced, Bool.false_eq_true, if_false]

theorem reportLine_apply (environment : Environment σ) (line : Nat) (machine : Machine σ) :
    reportLine environment line machine = some (.ok (), machine.reachLine environment line) := by
  simp only [reportLine, Effect.bind_apply, Effect.modifyFrame, Effect.frame]
  unfold Machine.reachLine
  have kept : ({ machine.frame with line := line } : Frame).isTraced = machine.frame.isTraced := rfl
  simp only [kept]
  split
  · simp only [Effect.bind_apply, report_apply]
    split <;> rfl
  · rfl

def Machine.enter (environment : Environment σ) (machine : Machine σ) : Machine σ :=
  if environment.hook.isSome then
    let told := machine.tell environment .call
    { told.2 with frame := told.2.frame.setTraced (told.1 = .keep) }
  else machine

/-- The machine after the hook was told how its frame ends, if it still wants to know. -/
def Machine.leave (environment : Environment σ) (failed : Bool) (machine : Machine σ) :
    Machine σ :=
  if machine.frame.isTraced then
    let raised := if failed then (machine.tell environment .exception).2 else machine
    (raised.tell environment .exit).2
  else machine

def failed : Except RuntimeError α → Bool
  | .ok _ => false
  | .error _ => true

theorem enter_apply (environment : Environment σ) (machine : Machine σ) :
    enter environment machine = some (.ok (), machine.enter environment) := by
  simp only [enter, Machine.enter]
  split
  · simp only [Effect.bind_apply, report_apply]
    rfl
  · rfl

theorem leave_apply (environment : Environment σ) (result : Except RuntimeError Flow)
    (machine : Machine σ) :
    leave environment result machine = some (.ok (), machine.leave environment (failed result)) := by
  simp only [leave, Machine.leave, Effect.bind_apply, Effect.frame]
  split
  · cases result with
    | ok flow => simp only [Effect.bind_apply, report_apply, failed]; rfl
    | error error => simp only [Effect.bind_apply, report_apply, failed]; rfl
  · rfl

def Machine.activated (environment : Environment σ) (definition : Definition)
    (slots : Array (Option Value)) (machine : Machine σ) : Machine σ :=
  let entered := ({ machine with frame := .ofCall definition slots } : Machine σ).enter environment
  { entered with depth := entered.depth + 1 }

/-- Setting up a frame changes what the hook knows, and whether it wants the events of the frame. -/
theorem Machine.enter_eq (environment : Environment σ) (machine : Machine σ) :
    ∃ observer frame, machine.enter environment =
        { machine with observer := observer, frame := frame } ∧
      frame.definition? = machine.frame.definition? := by
  unfold Machine.enter
  split
  · simp only
    rw [Machine.tell_snd]
    exact ⟨_, _, rfl, Frame.definition?_setTraced _ _⟩
  · exact ⟨machine.observer, machine.frame, rfl, rfl⟩

section

variable (environment : Environment σ) (definition : Definition) (slots : Array (Option Value))
  (machine : Machine σ)

theorem Machine.activated_eq :
    ∃ observer frame, machine.activated environment definition slots =
        { machine with observer := observer, depth := machine.depth + 1, frame := frame } ∧
      frame.definition? = some definition := by
  obtain ⟨observer, frame, entered, named⟩ :=
    Machine.enter_eq environment { machine with frame := .ofCall definition slots }
  refine ⟨observer, frame, ?_, named⟩
  unfold Machine.activated
  simp only [entered]

theorem activated_definition? :
    (machine.activated environment definition slots).frame.definition? = some definition := by
  obtain ⟨_, _, activated, named⟩ := machine.activated_eq environment definition slots
  rw [activated]
  exact named

theorem activated_depth :
    (machine.activated environment definition slots).depth = machine.depth + 1 := by
  obtain ⟨_, _, activated, _⟩ := machine.activated_eq environment definition slots
  rw [activated]

end

/-- The machine after the frame of a function is done; `caller` runs again. -/
def Machine.returned (environment : Environment σ) (caller : Frame) (failed : Bool)
    (machine : Machine σ) : Machine σ :=
  { ({ machine with depth := machine.depth - 1 } : Machine σ).leave environment failed with
    frame := caller }

theorem Machine.returned_eq (environment : Environment σ) (caller : Frame) (failed : Bool)
    (machine : Machine σ) :
    ∃ observer, machine.returned environment caller failed =
      { machine with observer := observer, depth := machine.depth - 1, frame := caller } := by
  unfold Machine.returned Machine.leave
  split
  · simp only
    rw [Machine.tell_snd]
    split
    · rw [Machine.tell_snd]
      exact ⟨_, rfl⟩
    · exact ⟨_, rfl⟩
  · exact ⟨_, rfl⟩

theorem activate_apply (environment : Environment σ) (below : Level σ) (definition : Definition)
    (slots : Array (Option Value)) (machine : Machine σ) :
    activate environment below definition slots machine =
      (below.execute definition.body (machine.activated environment definition slots)).map
        fun ended => (ended.1.map Flow.value,
          ended.2.returned environment machine.frame (failed ended.1)) := by
  simp only [activate, runBody, Effect.bind_apply, Effect.frame, Effect.modifyFrame,
    Effect.modifyDepth, Effect.outcome, enter_apply, Machine.activated]
  cases below.execute definition.body _ with
  | none => rfl
  | some ended =>
      obtain ⟨result, after⟩ := ended
      cases result with
      | ok flow => simp [leave_apply, Effect.resume, Machine.returned, failed, Effect.pure_apply,
          Except.map]
      | error error => simp [leave_apply, Effect.resume, Machine.returned, failed, Except.map]

/-- What a call of a script function comes to before its frame is set up: the function and the slots
of its frame, or the error that refuses the call. -/
def Environment.admission (environment : Environment σ) (depth : Nat) (function : FunctionObject)
    (arguments : List Value) (keywords : Keywords) :
    Except RuntimeError (Definition × Array (Option Value)) :=
  if function.home ≠ environment.namespaceId then
    .error (.internal (.foreignFunction function.name function.home environment.namespaceId))
  else
    match environment.functions[function.id]? with
    | none => .error (.internal (.unknownFunction function.id))
    | some definition =>
        if environment.callLimit ≤ depth then .error (.recursionLimit environment.callLimit)
        else
          match bindArguments definition function.defaults arguments keywords with
          | .error problem => .error (.type problem)
          | .ok slots => .ok (definition, slots)

theorem callFunction_apply (environment : Environment σ) (below : Level σ)
    (function : FunctionObject) (arguments : List Value) (keywords : Keywords)
    (machine : Machine σ) :
    callFunction environment below function arguments keywords machine =
      match environment.admission machine.depth function arguments keywords with
      | .error error => some (.error error, machine)
      | .ok (definition, slots) => activate environment below definition slots machine := by
  unfold callFunction Environment.admission
  by_cases foreign : function.home ≠ environment.namespaceId
  · simp [foreign, Effect.internal, Effect.bind_apply, Effect.throw_apply]
  · simp only [foreign, if_false]
    cases environment.functions[function.id]? with
    | none => rfl
    | some definition =>
        by_cases full : environment.callLimit ≤ machine.depth
        · simp [full, Effect.bind_apply, Effect.get_apply, Effect.throw_apply]
        · simp only [Effect.bind_apply, Effect.get_apply, full, if_false]
          cases bindArguments definition function.defaults arguments keywords <;> rfl

theorem Environment.admission_ok {environment : Environment σ} {depth : Nat} {function : FunctionObject}
    {arguments : List Value} {keywords : Keywords} {definition : Definition}
    {slots : Array (Option Value)}
    (admitted : environment.admission depth function arguments keywords = .ok (definition, slots)) :
    environment.functions[function.id]? = some definition ∧ depth < environment.callLimit ∧
      bindArguments definition function.defaults arguments keywords = .ok slots := by
  unfold Environment.admission at admitted
  split at admitted
  · cases admitted
  · split at admitted
    · cases admitted
    · rename_i found
      split at admitted
      · cases admitted
      · rename_i room
        split at admitted
        · cases admitted
        · rename_i bound
          cases admitted
          exact ⟨found, Nat.lt_of_not_le room, bound⟩

theorem failed_map (change : α → β) (result : Except RuntimeError α) :
    failed (result.map change) = failed result := by
  cases result <;> rfl

/-- A call of a script function is refused, or it runs the body in a frame of its own. -/
theorem callFunction_ended {environment : Environment σ} {below : Level σ}
    {function : FunctionObject} {arguments : List Value} {keywords : Keywords}
    {machine after : Machine σ} {result : Except RuntimeError Value}
    (ended : callFunction environment below function arguments keywords machine =
      some (result, after)) :
    (∃ error, environment.admission machine.depth function arguments keywords = .error error ∧
      result = .error error ∧ after = machine) ∨
    ∃ definition slots flow inner,
      environment.admission machine.depth function arguments keywords = .ok (definition, slots) ∧
      below.execute definition.body (machine.activated environment definition slots) =
        some (flow, inner) ∧
      result = flow.map Flow.value ∧
      after = inner.returned environment machine.frame (failed flow) := by
  rw [callFunction_apply] at ended
  cases admitted : environment.admission machine.depth function arguments keywords with
  | error error =>
      rw [admitted] at ended
      cases ended
      exact .inl ⟨error, rfl, rfl, rfl⟩
  | ok admission =>
      obtain ⟨definition, slots⟩ := admission
      rw [admitted] at ended
      simp only [activate_apply] at ended
      obtain ⟨⟨flow, inner⟩, ran, ended⟩ := Option.map_eq_some_iff.mp ended
      cases ended
      exact .inr ⟨definition, slots, flow, inner, rfl, ran, rfl, rfl⟩

theorem Namespace.call?_eq_map (space : Namespace) (callLimit : Nat) (hook : Option (Hook σ))
    (observer : σ) (callable : Callable) (arguments : List Value) :
    space.call? callLimit hook observer callable arguments =
      (callable.callee.call (environment space.id space.program callLimit hook) ampleFuel arguments
        (Machine.start space.heap space.globals observer)).map fun ended =>
          ⟨ended.1, ended.2.observer, outputLines ended.2.output, ended.2.heap⟩ := by
  unfold Namespace.call?
  simp only
  cases callable.callee.call _ _ _ _ <;> rfl

theorem Namespace.call?_ended {space : Namespace} {callLimit : Nat} {hook : Option (Hook σ)}
    {observer : σ} {callable : Callable} {arguments : List Value} {outcome : Outcome σ}
    (ended : space.call? callLimit hook observer callable arguments = some outcome) :
    ∃ after,
      callable.callee.call (environment space.id space.program callLimit hook) ampleFuel arguments
        (Machine.start space.heap space.globals observer) = some (outcome.result, after) ∧
      after.observer = outcome.observer := by
  rw [Namespace.call?_eq_map] at ended
  obtain ⟨⟨result, after⟩, ran, rfl⟩ := Option.map_eq_some_iff.mp ended
  exact ⟨after, ran, rfl⟩

end Stepwise.Run
