import Stepwise.Proofs.Parsing.Ranges
import Stepwise.Proofs.Twins.Level

/-!
Namespaces of the same source.

Whatever its number is, a namespace comes out of its source in the same way, and calls in it end in the
same way.  What a namespace holds refers to functions of its own, and a call keeps that.
-/

namespace Stepwise.Script

/-- A line of the source that belongs to a function, and that something is written on. -/
structure Definition.Covers (source : String) (definition : Definition) (line : Nat) : Prop where
  first : definition.firstLine ≤ line
  last : line ≤ definition.lastLine
  written : Inhabits 1 source.toList line

/-- What runs of a program rely on: its statements stand where they can run, and its functions go by
their positions. -/
structure Program.Sound (source : String) (program : Program) : Prop where
  body : Everywhere (Run.Permitted program.functions.length (Definition.Covers source) none) false
    program.body
  bodies : ∀ definition ∈ program.functions,
    Everywhere (Run.Permitted program.functions.length (Definition.Covers source) (some definition))
      false definition.body
  numbered : ∀ definition ∈ program.functions,
    program.functions[definition.id]? = some definition

theorem Program.parse?_sound {source : String} {program : Program}
    (accepted : Program.parse? source = some (.ok program)) : program.Sound source := by
  obtain ⟨shape, shaped⟩ := Program.parse?_shapes accepted
  have ranges := Program.parse?_ranges accepted
  refine ⟨?_, fun definition member => ?_, fun definition member => ?_⟩
  · refine (shape.suits.and ranges.defines).mono fun inLoop statement ⟨suits, defines⟩ => ?_
    exact ⟨suits, defines, nofun, nofun⟩
  · have within := (ranges.functions definition member).body
    have assigns := assigns_addBlockNames false (definition.parameters.map Parameter.name)
      definition.body
    rw [← (ranges.functions definition member).locals] at assigns
    refine (((shaped definition member).suits.and within).and assigns).mono ?_
    rintro inLoop statement ⟨⟨suits, first, last, written⟩, assigns⟩
    refine ⟨suits, fun id defines => ?_, ?_, ?_⟩
    · rw [defines] at suits
      cases suits
    · rintro _ ⟨⟩
      exact assigns
    · rintro _ ⟨⟩
      exact ⟨first, last, written⟩
  · obtain ⟨index, found⟩ := List.mem_iff_getElem?.mp member
    rw [ranges.numbered index definition found]
    exact found

end Stepwise.Script

namespace Stepwise.Run

open Script

variable {σ τ : Type}

def twinsOf {source : String} {program : Program} (sound : program.Sound source)
    (callLimit home otherHome : Nat) {hook : Option (Hook σ)} {otherHook : Option (Hook τ)}
    {link : σ → τ → Prop}
    (agree : HooksAgree home otherHome program.functions (Definition.Covers source) link hook
      otherHook) : Twins σ τ :=
  ⟨program.functions, callLimit, home, otherHome, hook, otherHook, link, Definition.Covers source,
    sound.bodies, agree⟩

theorem Twins.Paired.start {twins : Twins σ τ} {made : Nat} {heap : Heap}
    (sound : heap.Sound twins.home twins.functions.length made) {globals : Bindings}
    (within : globals.Within made) {observer : σ} {partner : τ} (linked : twins.link observer partner) :
    twins.Paired none made (.start heap globals observer)
      (.start (heap.rehomed twins.otherHome) globals partner) :=
  ⟨⟨sound, within, ⟨rfl, List.forall_mem_nil _, fun _ none => nomatch none⟩, fun _ none => nomatch none⟩,
    rfl, linked⟩

def LoadError.Genuine : LoadError → Prop
  | .failed error => error.Genuine
  | _ => True

namespace Namespace

def rehomed (home : Nat) (space : Namespace) : Namespace :=
  { space with id := home, heap := space.heap.rehomed home }

/-- A namespace of a program, in which so many functions have been made and values refer to these
only. -/
structure Sound (made : Nat) (space : Namespace) : Prop where
  program : space.program.Sound space.source
  heap : space.heap.Sound space.id space.program.functions.length made
  globals : space.globals.Within made

def Loaded (id : Nat) (source : String) : Except LoadError Namespace → Prop
  | .ok space => (∃ made, space.Sound made) ∧ space.id = id ∧ space.source = source
  | .error error => error.Genuine

def ofEnd (id : Nat) (source : String) (program : Program)
    (ended : Except RuntimeError Flow × Machine Unit) : Except LoadError Namespace :=
  match ended.1 with
  | .ok _ => .ok ⟨id, source, program, ended.2.globals, ended.2.heap⟩
  | .error error => .error (.failed error)

theorem ofProgram?_eq_map (fuel id : Nat) (source : String) (callLimit : Nat) (program : Program) :
    ofProgram? fuel id source callLimit program =
      ((level (environment id program callLimit none) fuel).execute program.body
        (Machine.start .empty .empty ())).map (ofEnd id source program) := by
  unfold ofProgram?
  simp only
  cases (level (environment id program callLimit none) fuel).execute program.body _ with
  | none => rfl
  | some ended =>
      obtain ⟨result, after⟩ := ended
      cases result <;> rfl

/-- The number of a namespace makes no difference to what its top-level statements do. -/
theorem ofProgram?_twin {source : String} {program : Program} (sound : program.Sound source)
    (fuel id other callLimit : Nat) :
    Option.Rel (fun first second => second = first.map (rehomed other) ∧ Loaded id source first)
      (ofProgram? fuel id source callLimit program)
      (ofProgram? fuel other source callLimit program) := by
  have bare : HooksAgree id other program.functions (Definition.Covers source)
      (fun _ _ : Unit => True) none none := trivial
  let twins := twinsOf sound callLimit id other bare
  have start : twins.Paired none 0 (.start .empty .empty ()) (.start (Heap.empty.rehomed other) _ ()) :=
    .start (.empty id _) (.empty 0) trivial
  rw [rehomed_empty] at start
  rw [ofProgram?_eq_map, ofProgram?_eq_map]
  refine rel_map ((twins.level fuel).execute sound.body _ _ start) ?_
  rintro ⟨result, after⟩ ⟨otherResult, otherAfter⟩ ⟨more, -, -, same, paired, fine⟩
  cases same
  cases result with
  | error error => exact ⟨rfl, fine⟩
  | ok flow =>
      refine ⟨?_, ⟨more, sound, paired.sound.heap, paired.sound.globals⟩, rfl, rfl⟩
      have twin := paired.twin
      simp only at twin
      rw [twin]
      rfl

theorem compile?_twin (source : String) (id other callLimit : Nat) :
    Option.Rel (fun first second => second = first.map (rehomed other) ∧ Loaded id source first)
      (compile? id source callLimit) (compile? other source callLimit) := by
  unfold compile?
  cases parsed : Program.parse? source with
  | none => exact .none
  | some result =>
      cases result with
      | error error => exact .some ⟨rfl, trivial⟩
      | ok program => exact ofProgram?_twin (Program.parse?_sound parsed) ampleFuel id other callLimit

end Namespace

namespace Callee

def rehomed (home : Nat) : Callee → Callee
  | .function object => .function { object with home := home }
  | .builtin named => .builtin named

def Sound (home functions made : Nat) : Callee → Prop
  | .function object => object.Sound home functions made
  | .builtin _ => True

end Callee

def Callable.rehomed (home : Nat) (callable : Callable) : Callable :=
  { callable with callee := callable.callee.rehomed home }

theorem Twins.call (twins : Twins σ τ) {code : Option Definition} {made : Nat} (fuel : Nat)
    {callee : Callee} (sound : callee.Sound twins.home twins.functions.length made)
    {arguments : List Value} (within : AllWithin made arguments) :
    twins.Steady code made (callee.call twins.environment fuel arguments)
      ((callee.rehomed twins.otherHome).call twins.otherEnvironment fuel arguments)
      (Value.Within made) := by
  have levels := twins.level fuel
  have named : KeywordsWithin made [] := List.forall_mem_nil _
  cases callee with
  | function object =>
      exact Twins.callFunction sound within named fun definition member =>
        (levels.execute (twins.bodies definition member)).restrict fun _ => rfl
  | builtin builtin => exact levels.applyBuiltin fuel builtin within named

theorem FrameView.rehomed_of_belongs {home : Nat} {functions : List Definition} {view : FrameView}
    (belongs : view.Belongs home functions) : view.rehomed home = view := by
  unfold FrameView.rehomed
  rw [rehomed_of_home belongs.objects, ← belongs.namespaceId]

/-- A hook answers like itself, and keeps of what it knows what every event keeps. -/
theorem HooksAgree.self {home : Nat} {functions : List Definition}
    {reports : Definition → Nat → Prop} {hook : Option (Hook σ)} {good : σ → Prop}
    (keeps : ∀ inner, hook = some inner → ∀ view event state, view.Belongs home functions →
      (event = .line → reports view.definition view.line) → good state →
      good (inner.notify view event state).2) :
    HooksAgree home home functions reports (fun first second => first = second ∧ good first) hook
      hook := by
  cases hook with
  | none => trivial
  | some inner =>
      rintro view event state _ ⟨rfl, holds⟩ belongs lines
      rw [FrameView.rehomed_of_belongs belongs]
      exact ⟨rfl, rfl, keeps inner rfl view event state belongs lines holds⟩

/-- Calls in two namespaces have ended alike, and the heaps are as they were but for what the functions
hold. -/
structure Outcome.Twin (home otherHome functions made : Nat) (link : σ → τ → Prop)
    (outcome : Outcome σ) (other : Outcome τ) : Prop where
  result : other.result = outcome.result
  observer : link outcome.observer other.observer
  output : other.output = outcome.output
  heap : other.heap = outcome.heap.rehomed otherHome
  sound : outcome.heap.Sound home functions made
  fine : Fine (Value.Within made) outcome.result

namespace Namespace.Sound

variable {made : Nat} {space : Namespace} (sound : space.Sound made)

include sound

/-- A name stands for the same function whatever the number of the namespace is. -/
theorem callable_rehomed (home : Nat) (name : String) :
    (space.rehomed home).callable name = (space.callable name).map (Callable.rehomed home) := by
  have same : (space.rehomed home).global? name = space.global? name := rfl
  unfold Namespace.callable
  rw [same]
  cases found : space.global? name with
  | none => rfl
  | some value =>
      cases value with
      | function ref =>
          have inside : ref < space.heap.functions.size := by
            rw [sound.heap.size]
            exact sound.globals _ (mem_of_lookup found)
          simp only [rehomed, rehomed_function home inside]
          rfl
      | _ => rfl

theorem callable {name : String} {callable : Callable} (found : space.callable name = .ok callable) :
    callable.callee.Sound space.id space.program.functions.length made := by
  unfold Namespace.callable at found
  split at found
  · cases found
  · rename_i ref bound
    cases found
    exact sound.heap.function (sound.globals _ (mem_of_lookup bound))
  · cases found
    trivial
  · cases found

/-- A value made from an interchange value refers to no function, and adds none. -/
theorem given (json : Json) : (Value.ofJson space.heap json).1.Within made ∧
    Namespace.Sound made { space with heap := (Value.ofJson space.heap json).2 } := by
  obtain ⟨within, kept⟩ := Value.ofJson_keeps sound.heap.holds json
  exact ⟨within, { sound with heap := sound.heap.after kept }⟩

theorem call?_twin (callLimit other : Nat) {hook : Option (Hook σ)} {otherHook : Option (Hook τ)}
    {link : σ → τ → Prop}
    (agree : HooksAgree space.id other space.program.functions (Definition.Covers space.source) link
      hook otherHook) {observer : σ} {partner : τ} (linked : link observer partner)
    {callable : Callable}
    (offered : callable.callee.Sound space.id space.program.functions.length made)
    {arguments : List Value} (within : AllWithin made arguments) :
    Option.Rel (Outcome.Twin space.id other space.program.functions.length made link)
      (space.call? callLimit hook observer callable arguments)
      ((space.rehomed other).call? callLimit otherHook partner (callable.rehomed other) arguments) := by
  let twins := twinsOf sound.program callLimit space.id other agree
  have start : twins.Paired none made (.start space.heap space.globals observer) _ :=
    .start sound.heap sound.globals linked
  have ended := twins.call ampleFuel offered within _ _ start
  rw [call?_eq_map, call?_eq_map]
  refine rel_map ended ?_
  rintro ⟨result, after⟩ ⟨otherResult, otherAfter⟩ ⟨more, -, fixed, same, paired, fine⟩
  cases same
  cases fixed trivial
  refine ⟨rfl, paired.linked, ?_, ?_, paired.sound.heap, fine⟩
  · exact congrArg (fun machine => outputLines machine.output) paired.twin
  · exact congrArg Machine.heap paired.twin

/-- A call leaves a sound namespace behind, and what every event keeps of what the hook knows. -/
theorem call?_keeps {callLimit : Nat} {hook : Option (Hook σ)} (good : σ → Prop)
    (keeps : ∀ inner, hook = some inner → ∀ view event state,
      view.Belongs space.id space.program.functions →
      (event = .line → view.definition.Covers space.source view.line) → good state →
      good (inner.notify view event state).2)
    {observer : σ} (holds : good observer) {callable : Callable}
    (offered : callable.callee.Sound space.id space.program.functions.length made)
    {arguments : List Value} (within : AllWithin made arguments) {outcome : Outcome σ}
    (ended : space.call? callLimit hook observer callable arguments = some outcome) :
    good outcome.observer ∧ Namespace.Sound made { space with heap := outcome.heap } ∧
      Fine (Value.Within made) outcome.result := by
  have twin := sound.call?_twin callLimit space.id (.self keeps) ⟨rfl, holds⟩ offered within
  rw [ended] at twin
  generalize Namespace.call? (σ := σ) _ _ _ _ _ _ = other at twin
  cases twin with
  | some twin => exact ⟨twin.observer.2, { sound with heap := twin.sound }, twin.fine⟩

end Namespace.Sound

/-- What can be done to a namespace: to make values of its own from interchange values, and to call what
a name is bound to, under any hook, with values that refer to nothing else. -/
inductive Namespace.Next : Namespace → Namespace → Prop where
  | given (space : Namespace) (items : List Json) :
      Next space { space with heap := (valuesOfJson space.heap items).2 }
  | called {σ : Type} {space : Namespace} {callLimit : Nat} {hook : Option (Hook σ)} {observer : σ}
      {name : String} {callable : Callable} {arguments : List Value} {outcome : Outcome σ} :
      space.callable name = .ok callable → AllWithin space.heap.functions.size arguments →
      space.call? callLimit hook observer callable arguments = some outcome →
      Next space { space with heap := outcome.heap }

/-- The namespaces of a source: compiled, and then changed by what can be done to them. -/
inductive Namespace.Reached (source : String) : Namespace → Prop where
  | compiled {id callLimit : Nat} {space : Namespace} :
      compile? id source callLimit = some (.ok space) → Reached source space
  | next {space after : Namespace} : Reached source space → space.Next after → Reached source after

theorem Namespace.compile?_loaded {source : String} {id callLimit : Nat}
    {result : Except LoadError Namespace} (compiled : compile? id source callLimit = some result) :
    Loaded id source result := by
  have twin := compile?_twin source id id callLimit
  rw [compiled] at twin
  cases twin with
  | some twin => exact twin.2

theorem Namespace.Next.sound {space after : Namespace} {made : Nat} (next : space.Next after)
    (sound : space.Sound made) : after.Sound made := by
  cases next with
  | given _ items =>
      have kept := (valuesOfJson_keeps sound.heap.holds items).2
      exact { sound with heap := sound.heap.after kept }
  | called found within ended =>
      rw [sound.heap.size] at within
      have offered := sound.callable found
      exact (sound.call?_keeps (fun _ => True) (fun _ _ _ _ _ _ _ _ => trivial) trivial offered within
        ended).2.1

theorem Namespace.Reached.sound {source : String} {space : Namespace}
    (reached : Namespace.Reached source space) : space.source = source ∧ ∃ made, space.Sound made := by
  induction reached with
  | compiled compiled =>
      obtain ⟨sound, -, same⟩ := compile?_loaded compiled
      exact ⟨same, sound⟩
  | next _ next inductionHypothesis =>
      obtain ⟨same, made, sound⟩ := inductionHypothesis
      refine ⟨?_, made, next.sound sound⟩
      cases next <;> exact same

end Stepwise.Run
