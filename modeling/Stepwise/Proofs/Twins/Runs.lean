import Stepwise.Proofs.Blocks
import Stepwise.Proofs.Lockstep
import Stepwise.Proofs.Twins.Methods

/-!
Runs of the same code in two namespaces.

The namespaces have numbers and hooks of their own.  A machine is sound if everything in it refers to
functions that exist and belong to the namespace, and if its frame belongs to the code that runs.  From
a sound machine and its twin in the other namespace the same effects end alike, in a sound machine and
its twin, and fail only with errors that scripts cause.
-/

namespace Stepwise.Run

open Script Effect

theorem rel_weaken {α β : Type} {related wanted : α → β → Prop} {first : Option α}
    {second : Option β} (ended : Option.Rel related first second)
    (implies : ∀ a b, related a b → wanted a b) : Option.Rel wanted first second := by
  cases ended with
  | none => exact .none
  | some ended => exact .some (implies _ _ ended)

/-- A statement that can stand in some code, with functions that exist, names that the code has slots
for, and a line that the code may report. -/
structure Permitted (functions : Nat) (reports : Definition → Nat → Prop) (code : Option Definition)
    (inLoop : Bool) (statement : Statement) : Prop where
  suits : statement.form.suits code.isSome inLoop = true
  defines : ∀ id, statement.form = .define id → id < functions
  assigns : ∀ definition, code = some definition → statement.Assigns definition.locals
  line : ∀ definition, code = some definition → reports definition statement.line

def FrameView.rehomed (home : Nat) (view : FrameView) : FrameView :=
  { view with heap := view.heap.rehomed home, namespaceId := home }

structure FrameView.Belongs (home : Nat) (functions : List Definition) (view : FrameView) : Prop where
  namespaceId : view.namespaceId = home
  definition : view.definition ∈ functions
  objects : ∀ function ∈ view.heap.functions, function.home = home

/-- Hooks that answer alike to the same frames of two namespaces, as long as what they know is linked,
and keep it linked. -/
def HooksAgree {σ τ : Type} (home otherHome : Nat) (functions : List Definition)
    (reports : Definition → Nat → Prop) (link : σ → τ → Prop) :
    Option (Hook σ) → Option (Hook τ) → Prop
  | none, none => True
  | some hook, some other => ∀ view event state partner, link state partner →
      view.Belongs home functions → (event = .line → reports view.definition view.line) →
      (hook.notify view event state).1 = (other.notify (view.rehomed otherHome) event partner).1 ∧
        link (hook.notify view event state).2 (other.notify (view.rehomed otherHome) event partner).2
  | _, _ => False

structure Twins (σ τ : Type) where
  functions : List Definition
  callLimit : Nat
  home : Nat
  otherHome : Nat
  hook : Option (Hook σ)
  otherHook : Option (Hook τ)
  /-- What the hooks know is related. -/
  link : σ → τ → Prop
  /-- The lines that frames of a function may come to. -/
  reports : Definition → Nat → Prop
  bodies : ∀ definition ∈ functions,
    Everywhere (Permitted functions.length reports (some definition)) false definition.body
  hooks : HooksAgree home otherHome functions reports link hook otherHook

abbrev Bindings.Within (made : Nat) (bindings : Bindings) : Prop :=
  ∀ entry ∈ bindings.entries, entry.2.Within made

theorem Bindings.Within.empty (made : Nat) : Bindings.empty.Within made := List.forall_mem_nil _

theorem Bindings.Within.set {made : Nat} {bindings : Bindings} (within : bindings.Within made)
    (name : String) {value : Value} (bound : value.Within made) :
    (bindings.set name value).Within made := by
  obtain ⟨entries⟩ := bindings
  unfold Bindings.set
  simp only
  induction entries with
  | nil =>
      intro entry member
      rw [List.mem_singleton.mp member]
      exact bound
  | cons entry rest inductionHypothesis =>
      obtain ⟨first, others⟩ := List.forall_mem_cons.mp within
      unfold Bindings.setEntry
      split
      · exact List.forall_mem_cons.mpr ⟨bound, others⟩
      · exact List.forall_mem_cons.mpr ⟨first, inductionHypothesis others⟩

theorem Bindings.Within.mono {made more : Nat} (grows : made ≤ more) {bindings : Bindings}
    (within : bindings.Within made) : bindings.Within more :=
  fun entry member => (within entry member).mono grows

structure SlotsWithin (locals made : Nat) (slots : Array (Option Value)) : Prop where
  size : slots.size = locals
  values : ∀ value, some value ∈ slots → value.Within made

theorem SlotsWithin.set {locals made : Nat} {slots : Array (Option Value)}
    (within : SlotsWithin locals made slots) (position : Nat) {value : Option Value}
    (bound : ∀ found, value = some found → found.Within made) :
    SlotsWithin locals made (slots.setIfInBounds position value) := by
  refine ⟨Array.size_setIfInBounds.trans within.size, fun other member => ?_⟩
  rcases Array.mem_or_eq_of_mem_setIfInBounds member with member | same
  · exact within.values other member
  · exact bound other same.symm

structure Frame.Sound (code : Option Definition) (made : Nat) (frame : Frame) : Prop where
  code : frame.definition? = code
  scopes : ∀ scope ∈ frame.scopes, scope.Within made
  slots : ∀ activation, frame.activation = some activation →
    SlotsWithin activation.definition.locals.length made activation.slots

theorem Frame.Sound.mono {code : Option Definition} {made more : Nat} (grows : made ≤ more)
    {frame : Frame} (sound : frame.Sound code made) : frame.Sound code more := by
  refine ⟨sound.code, fun scope member => (sound.scopes scope member).mono grows, ?_⟩
  intro activation running
  obtain ⟨size, values⟩ := sound.slots activation running
  exact ⟨size, fun value member => (values value member).mono grows⟩

theorem Frame.Sound.withSlots {code : Option Definition} {made : Nat} {frame : Frame}
    {activation : Activation} (sound : frame.Sound code made)
    (running : frame.activation = some activation) {slots : Array (Option Value)}
    (within : SlotsWithin activation.definition.locals.length made slots) :
    ({ frame with activation := some { activation with slots := slots } } : Frame).Sound code made := by
  refine ⟨?_, sound.scopes, ?_⟩
  · rw [← sound.code]
    simp only [Frame.definition?, running, Option.map_some]
  · rintro _ ⟨⟩
    exact within

theorem Frame.Sound.withTraced {code : Option Definition} {made : Nat} {frame : Frame}
    (sound : frame.Sound code made) (traced : Bool) : (frame.setTraced traced).Sound code made := by
  refine ⟨(frame.definition?_setTraced traced).trans sound.code, sound.scopes, ?_⟩
  rintro _ running
  obtain ⟨activation, found, rfl⟩ := Option.map_eq_some_iff.mp running
  exact sound.slots activation found

section

variable {σ τ α β : Type} (twins : Twins σ τ)

namespace Twins

def environment : Environment σ := ⟨twins.home, twins.functions, twins.callLimit, twins.hook⟩

def otherEnvironment : Environment τ :=
  ⟨twins.otherHome, twins.functions, twins.callLimit, twins.otherHook⟩

def twin (partner : τ) (machine : Machine σ) : Machine τ :=
  ⟨machine.heap.rehomed twins.otherHome, machine.globals, machine.output, partner, machine.depth,
    machine.frame⟩

/-- A machine that runs code of the namespace, in which so many functions have been made. -/
structure Sound (code : Option Definition) (made : Nat) (machine : Machine σ) : Prop where
  heap : machine.heap.Sound twins.home twins.functions.length made
  globals : machine.globals.Within made
  frame : machine.frame.Sound code made
  listed : ∀ definition, code = some definition → definition ∈ twins.functions

structure Paired (code : Option Definition) (made : Nat) (machine : Machine σ) (other : Machine τ) :
    Prop where
  sound : twins.Sound code made machine
  twin : other = twins.twin other.observer machine
  linked : twins.link machine.observer other.observer

/-- Two runs have ended alike.  If `fixed` holds no function has been made on the way. -/
def Alike (fixed : Prop) (code : Option Definition) (made : Nat) (expected : Nat → α → Prop)
    (ended : Except RuntimeError α × Machine σ) (other : Except RuntimeError α × Machine τ) : Prop :=
  ∃ more, made ≤ more ∧ (fixed → more = made) ∧ ended.1 = other.1 ∧
    twins.Paired code more ended.2 other.2 ∧ Fine (expected more) ended.1

def Runs (fixed : Prop) (code : Option Definition) (made : Nat) (first : Effect σ α)
    (second : Effect τ α) (expected : Nat → α → Prop) : Prop :=
  ∀ machine other, twins.Paired code made machine other →
    Option.Rel (twins.Alike fixed code made expected) (first machine) (second other)

abbrev Steady (code : Option Definition) (made : Nat) (first : Effect σ α) (second : Effect τ α)
    (expected : α → Prop) : Prop :=
  twins.Runs True code made first second fun _ => expected

end Twins

namespace Twins.Runs

variable {twins} {fixed : Prop} {code : Option Definition} {made : Nat} {first : Effect σ α}
  {second : Effect τ α} {expected : Nat → α → Prop}

/-- A run that makes no function under a weaker condition makes none under a stronger one. -/
theorem restrict {narrow : Prop} (runs : twins.Runs fixed code made first second expected)
    (implies : narrow → fixed) : twins.Runs narrow code made first second expected := by
  intro machine other paired
  refine rel_weaken (runs machine other paired) ?_
  rintro ended otherEnded ⟨more, grows, same, alike⟩
  exact ⟨more, grows, fun holds => same (implies holds), alike⟩

theorem pure {value : α} (holds : expected made value) :
    twins.Runs fixed code made (Pure.pure value) (Pure.pure value) expected :=
  fun _ _ paired => .some ⟨made, Nat.le_refl _, fun _ => rfl, rfl, paired, holds⟩

theorem raise {error : RuntimeError} (genuine : error.Genuine) :
    twins.Runs fixed code made (throw error) (throw error) expected :=
  fun _ _ paired => .some ⟨made, Nat.le_refl _, fun _ => rfl, rfl, paired, genuine⟩

theorem exhausted : twins.Runs fixed code made Effect.exhausted Effect.exhausted expected :=
  fun _ _ _ => .none

theorem bind {firstNext : α → Effect σ β} {secondNext : α → Effect τ β} {wanted : Nat → β → Prop}
    (runs : twins.Runs fixed code made first second expected)
    (rest : ∀ more value, made ≤ more → (fixed → more = made) → expected more value →
      twins.Runs fixed code more (firstNext value) (secondNext value) wanted) :
    twins.Runs fixed code made (first >>= firstNext) (second >>= secondNext) wanted := by
  intro machine other paired
  rw [bind_apply, bind_apply]
  have ended := runs machine other paired
  generalize first machine = one at ended ⊢
  generalize second other = two at ended ⊢
  cases ended with
  | none => exact .none
  | @some ended otherEnded alike =>
      obtain ⟨more, grows, same, equal, paired, fine⟩ := alike
      obtain ⟨result, after⟩ := ended
      obtain ⟨otherResult, otherAfter⟩ := otherEnded
      cases equal
      cases result with
      | error error => exact .some ⟨more, grows, same, rfl, paired, fine⟩
      | ok value =>
          refine rel_weaken (rest more value grows same fine after otherAfter paired) ?_
          rintro ended otherEnded ⟨most, growsOn, sameOn, equal, paired, fine⟩
          exact ⟨most, Nat.le_trans grows growsOn, fun holds => (sameOn holds).trans (same holds),
            equal, paired, fine⟩

theorem loosen {expected : α → Prop} (steady : twins.Steady code made first second expected) :
    twins.Runs fixed code made first second fun more value => more = made ∧ expected value := by
  intro machine other paired
  refine rel_weaken (steady machine other paired) ?_
  rintro ended otherEnded ⟨more, grows, same, equal, paired, fine⟩
  cases same trivial
  exact ⟨made, grows, fun _ => rfl, equal, paired, fine.weaken fun _ holds => ⟨rfl, holds⟩⟩

theorem before {firstNext : α → Effect σ β} {secondNext : α → Effect τ β} {expected : α → Prop}
    {wanted : Nat → β → Prop} (steady : twins.Steady code made first second expected)
    (rest : ∀ value, expected value →
      twins.Runs fixed code made (firstNext value) (secondNext value) wanted) :
    twins.Runs fixed code made (first >>= firstNext) (second >>= secondNext) wanted := by
  refine steady.loosen.bind fun more value _ _ holds => ?_
  obtain ⟨rfl, holds⟩ := holds
  exact rest value holds

theorem map {expected : α → Prop} {wanted : β → Prop} (change : α → β)
    (steady : twins.Steady code made first second expected)
    (implies : ∀ value, expected value → wanted (change value)) :
    twins.Steady code made (change <$> first) (change <$> second) wanted := by
  rw [map_eq_pure_bind, map_eq_pure_bind]
  exact steady.before fun value holds => pure (implies value holds)

/-- A step that does not tell the hooks anything and makes no function. -/
theorem step {expected : α → Prop}
    (steps : ∀ machine, twins.Sound code made machine → ∃ result after,
      first machine = some (result, after) ∧
      (∀ partner, second (twins.twin partner machine) = some (result, twins.twin partner after)) ∧
      after.observer = machine.observer ∧ twins.Sound code made after ∧ Fine expected result) :
    twins.Steady code made first second expected := by
  intro machine other paired
  obtain ⟨result, after, one, two, kept, sound, fine⟩ := steps machine paired.sound
  rw [paired.twin, one, two]
  exact .some ⟨made, Nat.le_refl _, fun _ => rfl, rfl, ⟨sound, rfl, kept ▸ paired.linked⟩, fine⟩

theorem onHeap {expected : α → Prop} {action : Action α} (tame : action.Tame made expected) :
    twins.Steady code made (Effect.onHeap action) (Effect.onHeap action) expected := by
  intro machine other paired
  have holds := paired.sound.heap.holds
  rw [paired.twin, onHeap_apply, onHeap_apply]
  simp only [Twins.twin, tame.rehomed twins.otherHome machine.heap holds]
  cases ended : action machine.heap with
  | none => exact .none
  | some reached =>
      obtain ⟨result, after⟩ := reached
      obtain ⟨fine, kept⟩ := tame.keeps _ _ _ holds ended
      have sound : twins.Sound code made { machine with heap := after } :=
        { paired.sound with heap := paired.sound.heap.after kept }
      exact .some ⟨made, Nat.le_refl _, fun _ => rfl, rfl, ⟨sound, rfl, paired.linked⟩, fine⟩

end Twins.Runs

/-- The value that a name stands for in a frame, or the error of a name that stands for none. -/
def loaded (frame : Frame) (globals : Bindings) (name : String) : Except RuntimeError Value :=
  match bindingOf? frame globals name with
  | some value => .ok value
  | none =>
      if (frame.local? name).isSome then .error (.unboundLocal name)
      else
        match Builtin.ofName? name with
        | some builtin => .ok (.builtin builtin)
        | none => .error (.name name)

theorem load_apply (name : String) (machine : Machine σ) :
    Effect.load name machine = some (loaded machine.frame machine.globals name, machine) := by
  simp only [Effect.load, bind_apply, Effect.binding?, loaded]
  cases bindingOf? machine.frame machine.globals name with
  | some value => rfl
  | none =>
      simp only [bind_apply, Effect.frame]
      split
      · rfl
      · cases Builtin.ofName? name <;> rfl

namespace Twins

variable {twins} {code : Option Definition} {made : Nat} {machine : Machine σ}

namespace Sound

variable (sound : twins.Sound code made machine)

include sound

theorem bindingOf? {name : String} {value : Value}
    (found : bindingOf? machine.frame machine.globals name = some value) : value.Within made := by
  unfold Run.bindingOf? at found
  split at found
  · rename_i bound
    cases found
    obtain ⟨scope, member, met⟩ := List.exists_of_findSome?_eq_some bound
    exact sound.frame.scopes scope member _ (mem_of_lookup met)
  · split at found
    · rename_i activation position here
      obtain ⟨running, active, rest⟩ := Option.bind_eq_some_iff.mp here
      obtain ⟨_, _, same⟩ := Option.map_eq_some_iff.mp rest
      cases same
      exact (sound.frame.slots _ active).values value
        (Array.mem_of_getElem? (Option.join_eq_some_iff.mp found))
    · exact sound.globals _ (mem_of_lookup found)

theorem loaded (name : String) :
    Fine (Value.Within made) (Run.loaded machine.frame machine.globals name) := by
  unfold Run.loaded
  split
  · rename_i found
    exact sound.bindingOf? found
  · split
    · trivial
    · split <;> trivial

theorem withScopes {scopes : List Bindings} (within : ∀ scope ∈ scopes, scope.Within made) :
    twins.Sound code made { machine with frame := { machine.frame with scopes := scopes } } :=
  { sound with frame := ⟨sound.frame.code, within, sound.frame.slots⟩ }

theorem withLine (line : Nat) :
    twins.Sound code made { machine with frame := { machine.frame with line := line } } :=
  { sound with frame := ⟨sound.frame.code, sound.frame.scopes, sound.frame.slots⟩ }

end Sound

theorem binding? (name : String) :
    twins.Steady code made (Effect.binding? name) (Effect.binding? name) fun found =>
      ∀ value, found = some value → value.Within made :=
  .step fun machine sound => ⟨_, machine, rfl, fun _ => rfl, rfl, sound,
    fun _ found => sound.bindingOf? found⟩

theorem load (name : String) :
    twins.Steady code made (Effect.load name) (Effect.load name) (Value.Within made) :=
  .step fun machine sound => ⟨_, machine, load_apply name machine, fun _ => load_apply name _, rfl,
    sound, sound.loaded name⟩

theorem write (text : String) :
    twins.Steady code made (Effect.write text) (Effect.write text) fun _ => True :=
  .step fun machine sound => ⟨.ok (), { machine with output := machine.output ++ text }, rfl,
    fun _ => rfl, rfl, { sound with }, trivial⟩

theorem bindVariable (name : String) {value : Value} (within : value.Within made) :
    twins.Steady code made (Effect.bindVariable name value) (Effect.bindVariable name value)
      fun _ => True := by
  refine .step fun machine sound => ⟨.ok (), _, rfl, fun _ => rfl, rfl, ?_, trivial⟩
  cases inner : machine.frame.scopes with
  | nil =>
      simp only [inner]
      exact sound
  | cons scope outer =>
      simp only [inner]
      have all := sound.frame.scopes
      rw [inner] at all
      obtain ⟨first, others⟩ := List.forall_mem_cons.mp all
      exact sound.withScopes (List.forall_mem_cons.mpr ⟨first.set name within, others⟩)

end Twins

end

end Stepwise.Run
