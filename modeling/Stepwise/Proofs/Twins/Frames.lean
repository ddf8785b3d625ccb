import Stepwise.Proofs.Twins.Runs

/-!
Frames in twin namespaces: their locals, their events and the calls that set them up.
-/

namespace Stepwise.Run

open Script Effect

/-- What a block gives back is within a bound. -/
def Flow.Within (made : Nat) : Flow → Prop
  | .returning value => value.Within made
  | _ => True

theorem Flow.Within.value {made : Nat} {flow : Flow} (within : flow.Within made) :
    flow.value.Within made := by
  cases flow with
  | returning value => exact within
  | _ => trivial

namespace SlotsWithin

variable {locals made : Nat} {slots : Array (Option Value)}

theorem positional {arguments : List Value} (within : AllWithin made arguments) :
    SlotsWithin locals made (positionalSlots locals arguments) := by
  refine ⟨?_, fun value member => ?_⟩
  · simp only [positionalSlots, List.size_toArray, List.length_append, List.length_map,
      List.length_take, List.length_replicate]
    omega
  · rcases List.mem_append.mp (List.mem_toArray.mp member) with filled | empty
    · obtain ⟨_, taken, same⟩ := List.mem_map.mp filled
      cases same
      exact within value (List.mem_of_mem_take taken)
    · cases List.eq_of_mem_replicate empty

theorem setKeyword {definition : Definition} {keyword : String × Value}
    {after : Array (Option Value)} (within : SlotsWithin locals made slots)
    (bound : keyword.2.Within made) (filled : setKeyword definition slots keyword = .ok after) :
    SlotsWithin locals made after := by
  have taken : ∀ index, SlotsWithin locals made (slots.setIfInBounds index (some keyword.2)) := by
    intro index
    refine within.set index fun found same => ?_
    cases same
    exact bound
  unfold Run.setKeyword at filled
  split at filled
  · cases filled
  · split at filled <;> cases filled
    exact taken _

theorem setKeywords {definition : Definition} {keywords : Keywords} {after : Array (Option Value)}
    (within : SlotsWithin locals made slots) (named : KeywordsWithin made keywords)
    (filled : keywords.foldlM (Run.setKeyword definition) slots = .ok after) :
    SlotsWithin locals made after := by
  induction keywords generalizing slots with
  | nil =>
      cases filled
      exact within
  | cons keyword rest inductionHypothesis =>
      obtain ⟨first, others⟩ := List.forall_mem_cons.mp named
      rw [List.foldlM_cons] at filled
      cases reached : Run.setKeyword definition slots keyword with
      | error problem =>
          rw [reached] at filled
          cases filled
      | ok middle =>
          rw [reached] at filled
          exact inductionHypothesis (within.setKeyword first reached) others filled

theorem fillDefaults {defaults : List Value} (within : SlotsWithin locals made slots)
    (defaultsWithin : AllWithin made defaults) (required parameters : Nat) :
    SlotsWithin locals made (fillDefaults required defaults parameters slots) := by
  unfold Run.fillDefaults
  refine List.foldlRecOn _ _ within fun slots within index _ => ?_
  split
  · split
    · exact within.set index fun found met => defaultsWithin found (List.mem_of_getElem? met)
    · exact within
  · exact within

theorem bindArguments {definition : Definition} {defaults arguments : List Value}
    {keywords : Keywords} (defaultsWithin : AllWithin made defaults)
    (within : AllWithin made arguments) (named : KeywordsWithin made keywords)
    (bound : bindArguments definition defaults arguments keywords = .ok slots) :
    SlotsWithin definition.locals.length made slots := by
  unfold Run.bindArguments at bound
  simp only at bound
  split at bound
  · cases bound
  · cases given : keywords.foldlM (Run.setKeyword definition)
        (positionalSlots definition.locals.length arguments) with
    | error problem => rw [given] at bound; cases bound
    | ok filled =>
        rw [given] at bound
        have filled := ((positional within).setKeywords named given).fillDefaults defaultsWithin
        simp only [bind, Except.bind] at bound
        split at bound
        · cases bound
          exact filled _ _
        · cases bound

end SlotsWithin

namespace Twins

variable {σ τ α : Type} {twins : Twins σ τ} {code : Option Definition} {made : Nat}

/-- A name that code can bind: in a function, one that it has a slot for. -/
abbrev Bindable (code : Option Definition) (name : String) : Prop :=
  ∀ definition, code = some definition → name ∈ definition.locals

theorem store {name : String} {value : Value} (within : value.Within made)
    (bindable : Bindable code name) :
    twins.Steady code made (Effect.store name value) (Effect.store name value) fun _ => True := by
  refine .step fun machine sound => ?_
  cases running : machine.frame.activation with
  | none =>
      have globals := sound.globals.set name within
      refine ⟨.ok (), { machine with globals := machine.globals.set name value }, ?_, fun partner => ?_,
        rfl, { sound with globals := globals }, trivial⟩
      · simp only [Effect.store, bind_apply, Effect.frame, running, setGlobal]
      · simp only [Effect.store, bind_apply, Effect.frame, Twins.twin, running, setGlobal]
  | some activation =>
      have named : code = some activation.definition := by
        rw [← sound.frame.code, Frame.definition?, running, Option.map_some]
      obtain ⟨position, found⟩ :=
        Option.isSome_iff_exists.mp (List.isSome_idxOf?.mpr (bindable _ named))
      obtain ⟨inside, -⟩ := List.idxOf?_eq_some_iff.mp found
      have within : SlotsWithin activation.definition.locals.length made
          (activation.slots.setIfInBounds position (some value)) := by
        refine (sound.frame.slots activation running).set position fun _ same => ?_
        cases same
        exact within
      have place : activation.position? name = some position := found
      have room : position < activation.slots.size :=
        (sound.frame.slots activation running).size ▸ inside
      refine ⟨.ok (), { machine with frame := { machine.frame with
        activation := some { activation with
          slots := activation.slots.setIfInBounds position (some value) } } }, ?_, fun partner => ?_, rfl,
        { sound with frame := sound.frame.withSlots running within }, trivial⟩
      · simp only [Effect.store, bind_apply, Effect.frame, running, place, room, if_true, modifyFrame,
          Option.map_some]
      · simp only [Effect.store, bind_apply, Effect.frame, Twins.twin, running, place, room, if_true,
          modifyFrame, Option.map_some]

theorem inScope {first : Effect σ α} {second : Effect τ α} {expected : α → Prop}
    (steady : twins.Steady code made first second expected) :
    twins.Steady code made (Effect.inScope first) (Effect.inScope second) expected := by
  intro machine other paired
  have opened := paired.sound.withScopes
    (List.forall_mem_cons.mpr ⟨.empty made, paired.sound.frame.scopes⟩)
  rw [paired.twin, inScope_apply, inScope_apply]
  refine rel_map (steady _ (twins.twin other.observer _) ⟨opened, rfl, paired.linked⟩) ?_
  rintro ended otherEnded ⟨more, grows, same, equal, inner, fine⟩
  have closed := inner.sound.withScopes fun scope member =>
    inner.sound.frame.scopes scope (List.mem_of_mem_tail member)
  refine ⟨more, grows, same, equal, ⟨closed, ?_, inner.linked⟩, fine⟩
  rw [inner.twin]
  rfl

theorem moveToLine (line : Nat) :
    twins.Steady code made (Run.moveToLine line) (Run.moveToLine line) fun _ => True :=
  .step fun _ sound => ⟨.ok (), _, rfl, fun _ => rfl, rfl, sound.withLine line, trivial⟩

theorem hooked : twins.environment.hook.isSome = twins.otherEnvironment.hook.isSome := by
  have agree := twins.hooks
  simp only [environment, otherEnvironment]
  cases one : twins.hook <;> cases two : twins.otherHook <;> rw [one, two] at agree
  · rfl
  · cases agree
  · cases agree
  · rfl

namespace Paired

variable {machine : Machine σ} {other : Machine τ}

theorem withFrame {otherCode : Option Definition} (paired : twins.Paired code made machine other)
    {frame : Frame} (sound : frame.Sound otherCode made)
    (listed : ∀ definition, otherCode = some definition → definition ∈ twins.functions) :
    twins.Paired otherCode made { machine with frame := frame } { other with frame := frame } := by
  refine ⟨⟨paired.sound.heap, paired.sound.globals, sound, listed⟩, ?_, paired.linked⟩
  rw [paired.twin]
  rfl

theorem withDepth (paired : twins.Paired code made machine other) (change : Nat → Nat) :
    twins.Paired code made { machine with depth := change machine.depth }
      { other with depth := change other.depth } := by
  refine ⟨{ paired.sound with }, ?_, paired.linked⟩
  rw [paired.twin]
  rfl

theorem withTraced (paired : twins.Paired code made machine other) (traced : Bool) :
    twins.Paired code made { machine with frame := machine.frame.setTraced traced }
      { other with frame := other.frame.setTraced traced } := by
  refine ⟨{ paired.sound with frame := paired.sound.frame.withTraced traced }, ?_, paired.linked⟩
  rw [paired.twin]
  rfl

/-- Twin machines tell their hooks the same, as far as the hooks look at it. -/
theorem tell (paired : twins.Paired code made machine other) (event : Event)
    (reported : event = .line → ∀ definition, code = some definition →
      twins.reports definition machine.frame.line) :
    (machine.tell twins.environment event).1 = (other.tell twins.otherEnvironment event).1 ∧
      twins.Paired code made (machine.tell twins.environment event).2
        (other.tell twins.otherEnvironment event).2 := by
  have agree := twins.hooks
  obtain ⟨sound, twin, linked⟩ := paired
  rw [twin]
  unfold Machine.tell
  simp only [environment, otherEnvironment, Twins.twin]
  cases one : twins.hook with
  | none =>
      cases two : twins.otherHook with
      | none => exact ⟨rfl, sound, rfl, linked⟩
      | some otherHook => rw [one, two] at agree; cases agree
  | some hook =>
      cases two : twins.otherHook with
      | none => rw [one, two] at agree; cases agree
      | some otherHook =>
          rw [one, two] at agree
          cases running : machine.frame.activation with
          | none => exact ⟨rfl, sound, rfl, linked⟩
          | some activation =>
              have named : code = some activation.definition := by
                rw [← sound.frame.code, Frame.definition?, running, Option.map_some]
              let view : FrameView := ⟨machine.heap, twins.home, activation.definition, activation.slots,
                machine.frame.line⟩
              have belongs : view.Belongs twins.home twins.functions :=
                ⟨rfl, sound.listed _ named, fun function member =>
                  (sound.heap.objects function member).belongs⟩
              obtain ⟨same, link⟩ := agree view event machine.observer other.observer linked belongs
                fun lines => reported lines _ named
              exact ⟨same, { sound with }, rfl, link⟩

theorem reachLine (paired : twins.Paired code made machine other) (line : Nat)
    (reported : ∀ definition, code = some definition → twins.reports definition line) :
    twins.Paired code made (machine.reachLine twins.environment line)
      (other.reachLine twins.otherEnvironment line) := by
  have moved : twins.Paired code made { machine with frame := { machine.frame with line := line } }
      { other with frame := { other.frame with line := line } } := by
    refine ⟨paired.sound.withLine line, ?_, paired.linked⟩
    rw [paired.twin]
    rfl
  have traced : other.frame.isTraced = machine.frame.isTraced := by rw [paired.twin]; rfl
  obtain ⟨answer, told⟩ := moved.tell .line fun _ => reported
  unfold Machine.reachLine
  simp only [traced, ← answer]
  split
  · split
    · exact told.withTraced false
    · exact told
  · exact moved

theorem enter (paired : twins.Paired code made machine other) :
    twins.Paired code made (machine.enter twins.environment)
      (other.enter twins.otherEnvironment) := by
  obtain ⟨answer, told⟩ := paired.tell .call nofun
  unfold Machine.enter
  simp only [← hooked, ← answer]
  split
  · exact told.withTraced _
  · exact paired

theorem leave (paired : twins.Paired code made machine other) (failed : Bool) :
    twins.Paired code made (machine.leave twins.environment failed)
      (other.leave twins.otherEnvironment failed) := by
  have traced : other.frame.isTraced = machine.frame.isTraced := by rw [paired.twin]; rfl
  unfold Machine.leave
  simp only [traced]
  split
  · cases failed with
    | false => exact (paired.tell .exit nofun).2
    | true => exact ((paired.tell .exception nofun).2.tell .exit nofun).2
  · exact paired

end Paired

theorem reportLine {line : Nat}
    (reported : ∀ definition, code = some definition → twins.reports definition line) :
    twins.Steady code made (Run.reportLine twins.environment line)
      (Run.reportLine twins.otherEnvironment line) fun _ => True := by
  intro machine other paired
  rw [reportLine_apply, reportLine_apply]
  exact .some ⟨made, Nat.le_refl _, fun _ => rfl, rfl, paired.reachLine line reported, trivial⟩

/-- Calls are refused alike, and those that are not refused come to a function of the namespaces. -/
theorem admission {function : FunctionObject}
    (sound : function.Sound twins.home twins.functions.length made) (depth : Nat)
    {arguments : List Value} (within : AllWithin made arguments) {keywords : Keywords}
    (named : KeywordsWithin made keywords) :
    twins.otherEnvironment.admission depth { function with home := twins.otherHome } arguments
        keywords = twins.environment.admission depth function arguments keywords ∧
      Fine (fun admitted => admitted.1 ∈ twins.functions ∧
        SlotsWithin admitted.1.locals.length made admitted.2)
        (twins.environment.admission depth function arguments keywords) := by
  obtain ⟨belongs, known, defaults⟩ := sound
  have here : ¬ function.home ≠ twins.environment.namespaceId := fun foreign => foreign belongs
  have there : ¬ twins.otherHome ≠ twins.otherEnvironment.namespaceId := fun foreign => foreign rfl
  obtain ⟨definition, found⟩ : ∃ definition, twins.functions[function.id]? = some definition :=
    ⟨_, List.getElem?_eq_getElem known⟩
  have foundHere : twins.environment.functions[function.id]? = some definition := found
  have foundThere : twins.otherEnvironment.functions[function.id]? = some definition := found
  unfold Environment.admission
  simp only [if_neg here, if_neg there, foundHere, foundThere]
  refine ⟨rfl, ?_⟩
  split
  · trivial
  · cases bound : bindArguments definition function.defaults arguments keywords with
    | error problem => trivial
    | ok slots => exact ⟨List.mem_of_getElem? found, .bindArguments defaults within named bound⟩

theorem Paired.activated {machine : Machine σ} {other : Machine τ}
    (paired : twins.Paired code made machine other) {definition : Definition}
    (listed : definition ∈ twins.functions) {slots : Array (Option Value)}
    (within : SlotsWithin definition.locals.length made slots) :
    twins.Paired (some definition) made (machine.activated twins.environment definition slots)
      (other.activated twins.otherEnvironment definition slots) := by
  have fresh : (Frame.ofCall definition slots).Sound (some definition) made := by
    refine ⟨rfl, List.forall_mem_nil _, ?_⟩
    rintro _ ⟨⟩
    exact within
  have framed := paired.withFrame fresh fun _ same => by cases same; exact listed
  exact framed.enter.withDepth (· + 1)

theorem Paired.returned {machine inner : Machine σ} {other otherInner : Machine τ}
    {innerCode : Option Definition} (paired : twins.Paired code made machine other)
    (ended : twins.Paired innerCode made inner otherInner) (failed : Bool) :
    twins.Paired code made (inner.returned twins.environment machine.frame failed)
      (otherInner.returned twins.otherEnvironment other.frame failed) := by
  have caller : other.frame = machine.frame := by rw [paired.twin]; rfl
  rw [caller]
  exact ((ended.withDepth (· - 1)).leave failed).withFrame paired.sound.frame paired.sound.listed

theorem activate {below : Level σ} {otherBelow : Level τ} {definition : Definition}
    (listed : definition ∈ twins.functions) {slots : Array (Option Value)}
    (within : SlotsWithin definition.locals.length made slots)
    (executes : twins.Runs True (some definition) made (below.execute definition.body)
      (otherBelow.execute definition.body) Flow.Within) :
    twins.Steady code made (Run.activate twins.environment below definition slots)
      (Run.activate twins.otherEnvironment otherBelow definition slots) (Value.Within made) := by
  intro machine other paired
  rw [activate_apply, activate_apply]
  refine rel_map (executes _ _ (paired.activated listed within)) ?_
  rintro ⟨result, inner⟩ ⟨otherResult, otherInner⟩ ⟨more, _, same, equal, ended, fine⟩
  cases same trivial
  cases equal
  refine ⟨made, Nat.le_refl _, fun _ => rfl, rfl, paired.returned ended _, ?_⟩
  cases result with
  | error error => exact fine
  | ok flow => exact fine.value

/-- Calls of the same function end alike and make no function. -/
theorem callFunction {below : Level σ} {otherBelow : Level τ} {function : FunctionObject}
    (sound : function.Sound twins.home twins.functions.length made) {arguments : List Value}
    (within : AllWithin made arguments) {keywords : Keywords} (named : KeywordsWithin made keywords)
    (executes : ∀ definition ∈ twins.functions, twins.Runs True (some definition) made
      (below.execute definition.body) (otherBelow.execute definition.body) Flow.Within) :
    twins.Steady code made (Run.callFunction twins.environment below function arguments keywords)
      (Run.callFunction twins.otherEnvironment otherBelow
        { function with home := twins.otherHome } arguments keywords) (Value.Within made) := by
  intro machine other paired
  have depth : other.depth = machine.depth := by rw [paired.twin]; rfl
  obtain ⟨same, fine⟩ := admission sound machine.depth within named
  rw [callFunction_apply, callFunction_apply, depth, same]
  cases admitted : twins.environment.admission machine.depth function arguments keywords with
  | error error =>
      rw [admitted] at fine
      exact .some ⟨made, Nat.le_refl _, fun _ => rfl, rfl, paired, fine⟩
  | ok admission =>
      rw [admitted] at fine
      exact activate fine.1 fine.2 (executes _ fine.1) machine other paired

end Twins

end Stepwise.Run
