import Mathlib
import Stepwise.Proofs.Log
import Stepwise.Proofs.Twins.Namespaces
import Stepwise.Record.Tracer

/-!
Recorded lines are lines of the source.

A line event is on a line of the function that runs, and the text of a step is what the source has on
that line.  The excerpts that a tracer keeps make no difference: whatever it has compiled and traced
before, an excerpt that it finds for a function is the one that it would cut from the source.
-/

namespace Stepwise.Record

open Script Run

theorem Excerpt.line?_ofDefinition {source : String} {definition : Definition} {line : Nat}
    (covers : definition.Covers source line) :
    ∃ content, (Text.lines source.toList)[line - 1]? = some content ∧
      (ofDefinition source definition).line? line = some (String.ofList (Text.trim content)) := by
  obtain ⟨least, content, found⟩ := covers.written.line
  refine ⟨content, found, ?_⟩
  have first := covers.first
  have last := covers.last
  have ahead : ¬ line < max definition.firstLine 1 := by omega
  have position : max definition.firstLine 1 - 1 + (line - max definition.firstLine 1) = line - 1 := by
    omega
  have inside : line - max definition.firstLine 1 <
      definition.lastLine - max definition.firstLine 1 + 1 := by
    omega
  simp only [line?, ofDefinition, if_neg ahead, List.getElem?_map, List.getElem?_take_of_lt inside,
    List.getElem?_drop, position, found, Option.map_some, String.toList_ofList]

namespace Excerpts

/-- Every excerpt that is kept for a namespace is one of a function of its source. -/
def Faithful (space : Namespace) (excerpts : Excerpts) : Prop :=
  ∀ entry ∈ excerpts.entries, entry.1.namespaceId = space.id →
    ∃ definition, space.program.functions[entry.1.functionId]? = some definition ∧
      entry.2 = Excerpt.ofDefinition space.source definition

/-- Excerpts are kept for namespaces with numbers below a bound only. -/
def Below (bound : Nat) (excerpts : Excerpts) : Prop :=
  ∀ entry ∈ excerpts.entries, entry.1.namespaceId < bound

theorem Below.faithful {bound : Nat} {excerpts : Excerpts} (below : excerpts.Below bound)
    {space : Namespace} (fresh : bound ≤ space.id) : excerpts.Faithful space := by
  intro entry member same
  have := below entry member
  omega

theorem Below.mono {bound more : Nat} {excerpts : Excerpts} (below : excerpts.Below bound)
    (grows : bound ≤ more) : excerpts.Below more :=
  fun entry member => Nat.lt_of_lt_of_le (below entry member) grows

theorem mem_of_find? {excerpts : Excerpts} {place : Place} {excerpt : Excerpt}
    (found : excerpts.find? place = some excerpt) : (place, excerpt) ∈ excerpts.entries := by
  obtain ⟨before, after, same, _⟩ := List.lookup_eq_some_iff.mp found
  rw [same]
  exact List.mem_append_right _ List.mem_cons_self

theorem forall_mem_push {good : Place × Excerpt → Prop} {excerpts : Excerpts}
    (all : ∀ entry ∈ excerpts.entries, good entry) {place : Place} {excerpt : Excerpt}
    (holds : good (place, excerpt)) : ∀ entry ∈ (excerpts.push place excerpt).entries, good entry := by
  intro entry member
  rcases List.mem_append.mp member with member | member
  · refine all entry ?_
    split at member
    · exact List.mem_of_mem_drop member
    · exact member
  · rw [List.mem_singleton.mp member]
    exact holds

/-- Asking for the excerpt of a function keeps of all entries what holds of that excerpt. -/
theorem forall_mem_lookup {good : Place × Excerpt → Prop} {excerpts : Excerpts}
    (all : ∀ entry ∈ excerpts.entries, good entry) {source : String} {functions : List Definition}
    {place : Place} (holds : ∀ definition, functions[place.functionId]? = some definition →
      good (place, Excerpt.ofDefinition source definition)) :
    ∀ entry ∈ (excerpts.lookup source functions place).2.entries, good entry := by
  unfold lookup
  split
  · exact all
  · split
    · exact all
    · rename_i definition found
      exact forall_mem_push all (holds definition found)

theorem Faithful.lookup_fst {space : Namespace} {excerpts : Excerpts}
    (faithful : excerpts.Faithful space) {functionId : Nat} {definition : Definition}
    (found : space.program.functions[functionId]? = some definition) :
    (excerpts.lookup space.source space.program.functions ⟨space.id, functionId⟩).1 =
      some (Excerpt.ofDefinition space.source definition) := by
  unfold lookup
  cases kept : excerpts.find? ⟨space.id, functionId⟩ with
  | none => simp only [found]
  | some excerpt =>
      obtain ⟨same, defined, cut⟩ := faithful _ (mem_of_find? kept) rfl
      rw [found] at defined
      cases defined
      exact congrArg some cut

end Excerpts

theorem Recording.addLine_excerpts (recording : Recording) (space : Namespace) (depth : Nat)
    (view : FrameView) : (recording.addLine space depth view).excerpts =
      (recording.excerpts.lookup space.source space.program.functions
        ⟨view.namespaceId, view.definition.id⟩).2 := rfl

/-- Whatever excerpts are kept, the text of a new step is cut from the source. -/
theorem Recording.addLine_trace {recording : Recording} {space : Namespace} {view : FrameView}
    (faithful : recording.excerpts.Faithful space)
    (sound : space.program.Sound space.source)
    (belongs : view.Belongs space.id space.program.functions) (depth : Nat) :
    (recording.addLine space depth view).trace = (recording.trace.record view.line
      ((Excerpt.ofDefinition space.source view.definition).line view.line)
      (captureBindings view.heap depth view.locals)).2 := by
  have found := sound.numbered view.definition belongs.definition
  unfold Recording.addLine
  simp only [belongs.namespaceId, faithful.lookup_fst found]

/-- A step is on a line of a function, and its text is what the source has on that line. -/
def Step.Quotes (space : Namespace) (step : Step) : Prop :=
  ∃ definition ∈ space.program.functions,
    definition.firstLine ≤ step.line ∧ step.line ≤ definition.lastLine ∧ 1 ≤ step.line ∧
    ∃ content, (Text.lines space.source.toList)[step.line - 1]? = some content ∧
      (Excerpt.ofDefinition space.source definition).line? step.line = some step.code ∧
      step.code = String.ofList (Text.trim content)

theorem Recording.addLine_quotes {recording : Recording} {space : Namespace} {view : FrameView}
    (faithful : recording.excerpts.Faithful space)
    (sound : space.program.Sound space.source)
    (belongs : view.Belongs space.id space.program.functions)
    (covers : view.definition.Covers space.source view.line) (depth : Nat)
    (quotes : ∀ step ∈ recording.trace.steps, step.Quotes space) :
    ∀ step ∈ (recording.addLine space depth view).trace.steps, step.Quotes space := by
  obtain ⟨content, found, cut⟩ := Excerpt.line?_ofDefinition covers
  have text : (Excerpt.ofDefinition space.source view.definition).line view.line =
      String.ofList (Text.trim content) := by
    rw [Excerpt.line, cut, Option.getD_some]
  rw [addLine_trace faithful sound belongs depth, text]
  refine Array.forall_mem_push.mpr ⟨?_, quotes⟩
  exact ⟨view.definition, belongs.definition, covers.first, covers.last, covers.written.line.1,
    content, found, cut, rfl⟩

/-- A tracer, and the namespaces that it has compiled and traced calls in. -/
inductive Session (settings : Settings) : Tracer → List Namespace → Prop where
  | fresh : Session settings (.ofSettings settings) []
  | refused {tracer after : Tracer} {spaces : List Namespace} {source : String} {error : LoadError} :
      Session settings tracer spaces → tracer.compile? source = some (.error error, after) →
      Session settings after spaces
  | compiled {tracer after : Tracer} {spaces : List Namespace} {source : String}
      {space : Namespace} :
      Session settings tracer spaces → tracer.compile? source = some (.ok space, after) →
      Session settings after (space :: spaces)
  | next {tracer : Tracer} {spaces : List Namespace} {space after : Namespace} :
      Session settings tracer spaces → space ∈ spaces → space.Next after →
      Session settings tracer (after :: spaces)
  | traced {tracer : Tracer} {spaces : List Namespace} {space : Namespace} {name : String}
      {callable : Callable} {argument : Value} {traced : Traced} :
      Session settings tracer spaces → space ∈ spaces → space.callable name = .ok callable →
      argument.Within space.heap.functions.size → tracer.run? space callable argument = some traced →
      Session settings traced.tracer ({ space with heap := traced.heap } :: spaces)

/-- What is kept is right for all of some namespaces, and for later ones as well. -/
structure Excerpts.Keeps (bound : Nat) (spaces : List Namespace) (excerpts : Excerpts) : Prop where
  below : excerpts.Below bound
  faithful : ∀ space ∈ spaces, excerpts.Faithful space

/-- Recording a line keeps excerpts that are right for all namespaces, not just for the one that the line
belongs to. -/
theorem Excerpts.Keeps.addLine {bound : Nat} {spaces : List Namespace} {recording : Recording}
    (keeps : recording.excerpts.Keeps bound spaces) {space : Namespace} (below : space.id < bound)
    (agree : ∀ other ∈ spaces, space.id = other.id →
      space.source = other.source ∧ space.program = other.program)
    {view : FrameView} (belongs : view.Belongs space.id space.program.functions) (depth : Nat) :
    (recording.addLine space depth view).excerpts.Keeps bound spaces := by
  rw [Recording.addLine_excerpts, belongs.namespaceId]
  refine ⟨forall_mem_lookup keeps.below fun _ _ => below, fun other member => ?_⟩
  refine forall_mem_lookup (keeps.faithful other member) fun definition found same => ?_
  obtain ⟨source, program⟩ := agree other member same
  rw [← source, ← program]
  exact ⟨definition, found, rfl⟩

/-- A tracer has numbered its namespaces one by one, and keeps only what is right for them. -/
structure Tracer.Orderly (spaces : List Namespace) (tracer : Tracer) : Prop where
  keeps : tracer.excerpts.Keeps tracer.nextNamespace spaces
  sound : ∀ space ∈ spaces, ∃ made, space.Sound made
  below : ∀ space ∈ spaces, space.id < tracer.nextNamespace
  agree : ∀ space ∈ spaces, ∀ other ∈ spaces, other.id = space.id →
    other.source = space.source ∧ other.program = space.program

namespace Tracer

def conclude (tracer : Tracer) (outcome : Outcome Recording) : Traced :=
  let after := { tracer with
    excerpts := outcome.observer.excerpts
    trace := outcome.observer.trace }
  match outcome.result with
  | .ok value =>
      let result := captureOrText outcome.heap tracer.settings.snapshotDepth value
      ⟨{ after with progress := .completed }, outcome.heap,
        .ok ⟨result, outcome.observer.trace.steps, outcome.output⟩⟩
  | .error error => ⟨{ after with progress := .failed }, outcome.heap, .error error⟩

theorem run?_eq_map (tracer : Tracer) (space : Namespace) (callable : Callable) (argument : Value) :
    tracer.run? space callable argument =
      (space.call? tracer.settings.callLimit (some (recorder space tracer.settings.snapshotDepth))
        tracer.recording callable [argument]).map tracer.conclude := rfl

section

variable (tracer : Tracer) (outcome : Outcome Recording)

theorem conclude_excerpts : (tracer.conclude outcome).tracer.excerpts = outcome.observer.excerpts := by
  unfold conclude
  cases outcome.result <;> rfl

theorem conclude_trace : (tracer.conclude outcome).tracer.trace = outcome.observer.trace := by
  unfold conclude
  cases outcome.result <;> rfl

theorem conclude_settings : (tracer.conclude outcome).tracer.settings = tracer.settings := by
  unfold conclude
  cases outcome.result <;> rfl

theorem conclude_nextNamespace :
    (tracer.conclude outcome).tracer.nextNamespace = tracer.nextNamespace := by
  unfold conclude
  cases outcome.result <;> rfl

theorem conclude_heap : (tracer.conclude outcome).heap = outcome.heap := by
  unfold conclude
  cases outcome.result <;> rfl

end

def passing (tracer : Tracer) (count : Nat) : Tracer :=
  { tracer with nextNamespace := tracer.nextNamespace + count }

theorem compile?_eq_map (tracer : Tracer) (source : String) :
    tracer.compile? source =
      (Namespace.compile? tracer.nextNamespace source tracer.settings.callLimit).map fun result =>
        (result, tracer.passing 1) := rfl

theorem compile?_eq_some {tracer after : Tracer} {source : String}
    {result : Except LoadError Namespace} :
    tracer.compile? source = some (result, after) ↔
      Namespace.compile? tracer.nextNamespace source tracer.settings.callLimit = some result ∧
        after = tracer.passing 1 := by
  rw [compile?_eq_map, Option.map_eq_some_iff]
  constructor
  · rintro ⟨_, compiled, same⟩
    cases same
    exact ⟨compiled, rfl⟩
  · rintro ⟨compiled, rfl⟩
    exact ⟨result, compiled, rfl⟩

namespace Orderly

variable {tracer : Tracer} {spaces : List Namespace} (orderly : tracer.Orderly spaces)

include orderly

theorem next {space after : Namespace} (member : space ∈ spaces) (id : after.id = space.id)
    (source : after.source = space.source) (program : after.program = space.program)
    (sound : ∃ made, after.Sound made) : tracer.Orderly (after :: spaces) := by
  have faithful : tracer.excerpts.Faithful after := by
    have old := orderly.keeps.faithful space member
    unfold Excerpts.Faithful at old ⊢
    rwa [id, source, program]
  refine ⟨⟨orderly.keeps.below, List.forall_mem_cons.mpr ⟨faithful, orderly.keeps.faithful⟩⟩,
    List.forall_mem_cons.mpr ⟨sound, orderly.sound⟩,
    List.forall_mem_cons.mpr ⟨id ▸ orderly.below space member, orderly.below⟩, ?_⟩
  intro first firstMember second secondMember
  rcases List.mem_cons.mp firstMember with rfl | firstOld <;>
    rcases List.mem_cons.mp secondMember with rfl | secondOld
  · exact fun _ => ⟨rfl, rfl⟩
  · rw [id, source, program]
    exact orderly.agree space member second secondOld
  · rw [id, source, program]
    exact orderly.agree first firstOld space member
  · exact orderly.agree first firstOld second secondOld

theorem passing (count : Nat) : (tracer.passing count).Orderly spaces :=
  ⟨⟨orderly.keeps.below.mono (Nat.le_add_right _ _), orderly.keeps.faithful⟩, orderly.sound,
    fun space member => Nat.lt_add_right count (orderly.below space member), orderly.agree⟩

theorem compiled {space : Namespace} (id : space.id = tracer.nextNamespace)
    (sound : ∃ made, space.Sound made) :
    (tracer.passing 1).Orderly (space :: spaces) := by
  have fresh := orderly.keeps.below.faithful (Nat.le_of_eq id.symm)
  have later : ∀ other ∈ spaces, other.id ≠ space.id := fun other member same =>
    Nat.ne_of_lt (orderly.below other member) (same.trans id)
  have moved := orderly.passing 1
  refine ⟨⟨moved.keeps.below, List.forall_mem_cons.mpr ⟨fresh, orderly.keeps.faithful⟩⟩,
    List.forall_mem_cons.mpr ⟨sound, orderly.sound⟩,
    List.forall_mem_cons.mpr ⟨id ▸ Nat.lt_succ_self _, moved.below⟩, ?_⟩
  intro first firstMember second secondMember same
  rcases List.mem_cons.mp firstMember with rfl | firstOld <;>
    rcases List.mem_cons.mp secondMember with rfl | secondOld
  · exact ⟨rfl, rfl⟩
  · exact absurd same (later second secondOld)
  · exact absurd same.symm (later first firstOld)
  · exact orderly.agree first firstOld second secondOld same

/-- A traced call keeps the tracer in order, and the text of each of its steps is on its line. -/
theorem traced {space : Namespace} (member : space ∈ spaces) {name : String} {callable : Callable}
    (found : space.callable name = .ok callable) {argument : Value}
    (within : argument.Within space.heap.functions.size) {traced : Traced}
    (ended : tracer.run? space callable argument = some traced) :
    traced.tracer.Orderly ({ space with heap := traced.heap } :: spaces) ∧
      ∀ step ∈ traced.tracer.trace.steps, step.Quotes space := by
  let good (recording : Recording) : Prop :=
    recording.excerpts.Keeps tracer.nextNamespace spaces ∧
      ∀ step ∈ recording.trace.steps, step.Quotes space
  obtain ⟨made, sound⟩ := orderly.sound space member
  have fresh : good tracer.recording :=
    ⟨orderly.keeps, fun _ member => absurd member (Array.not_mem_empty _)⟩
  have kept : ∀ inner, some (recorder space tracer.settings.snapshotDepth) = some inner →
      ∀ view event recording, view.Belongs space.id space.program.functions →
      (event = .line → view.definition.Covers space.source view.line) → good recording →
      good (inner.notify view event recording).2 := by
    rintro _ ⟨⟩ view event recording belongs lines ⟨keeps, quotes⟩
    cases event with
    | line =>
        have agree := fun other otherMember => orderly.agree other otherMember space member
        exact ⟨keeps.addLine (orderly.below space member) agree belongs _, Recording.addLine_quotes
          (keeps.faithful space member) sound.program belongs (lines rfl) _ quotes⟩
    | _ => exact ⟨keeps, quotes⟩
  rw [run?_eq_map] at ended
  obtain ⟨outcome, ran, rfl⟩ := Option.map_eq_some_iff.mp ended
  rw [sound.heap.size] at within
  obtain ⟨⟨keeps, quotes⟩, soundAfter, -⟩ := sound.call?_keeps good kept fresh (sound.callable found)
    (List.forall_mem_singleton.mpr within) ran
  refine ⟨?_, ?_⟩
  · have moved : (tracer.conclude outcome).tracer.Orderly spaces := by
      refine ⟨?_, orderly.sound, ?_, orderly.agree⟩
      · rw [conclude_excerpts, conclude_nextNamespace]
        exact keeps
      · rw [conclude_nextNamespace]
        exact orderly.below
    refine moved.next member rfl rfl rfl ⟨made, ?_⟩
    rw [conclude_heap]
    exact soundAfter
  · rw [conclude_trace]
    exact quotes

end Orderly

end Tracer

theorem Session.orderly {settings : Settings} {tracer : Tracer} {spaces : List Namespace}
    (session : Session settings tracer spaces) : tracer.Orderly spaces := by
  induction session with
  | fresh =>
      exact ⟨⟨List.forall_mem_nil _, List.forall_mem_nil _⟩, List.forall_mem_nil _,
        List.forall_mem_nil _, List.forall_mem_nil _⟩
  | refused _ refused orderly =>
      obtain ⟨-, after⟩ := Tracer.compile?_eq_some.mp refused
      rw [after]
      exact orderly.passing 1
  | compiled _ compiled orderly =>
      obtain ⟨compiled, after⟩ := Tracer.compile?_eq_some.mp compiled
      obtain ⟨sound, id, -⟩ := Namespace.compile?_loaded compiled
      rw [after]
      exact orderly.compiled id sound
  | next _ member next orderly =>
      obtain ⟨made, sound⟩ := orderly.sound _ member
      refine orderly.next member ?_ ?_ ?_ ⟨made, next.sound sound⟩
      all_goals cases next <;> rfl
  | traced _ member found within ended orderly =>
      exact (orderly.traced member found within ended).1

/-- As long as the numbers of namespaces have not run out of 32 bits, each number that a tracer knows a
namespace by fits in them, and no two of them become one. -/
theorem Session.numbers_fit {settings : Settings} {tracer : Tracer} {spaces : List Namespace}
    (session : Session settings tracer spaces) (few : tracer.nextNamespace ≤ UInt32.size) :
    (∀ space ∈ spaces, (UInt32.ofNat space.id).toNat = space.id) ∧
      ∀ entry ∈ tracer.excerpts.entries,
        (UInt32.ofNat entry.1.namespaceId).toNat = entry.1.namespaceId := by
  have orderly := session.orderly
  refine ⟨fun space member => ?_, fun entry member => ?_⟩
  · exact UInt32.toNat_ofNat_of_lt' (Nat.lt_of_lt_of_le (orderly.below space member) few)
  · exact UInt32.toNat_ofNat_of_lt' (Nat.lt_of_lt_of_le (orderly.keeps.below entry member) few)

/-- Lines that are reported and lines that are recorded belong to functions of the source.

In a namespace of a source, whatever has been done to it before, every line that a hook is told of is a
line of the function whose frame comes to it.  In a session of a tracer, every step of a traced call is
on a line of a function of the source that the namespace was compiled from, the excerpt of this function
has the line, and the text of the step is what the source has on it.  So nothing ever stands in for a
line that is not known. -/
theorem recorded_lines_quote_source :
    (∀ source space, Namespace.Reached source space →
      ∀ callLimit strategy name callable arguments outcome, space.callable name = .ok callable →
      AllWithin space.heap.functions.size arguments →
      space.call? callLimit (some (Hook.logging strategy)) [] callable arguments = some outcome →
      ∀ entry ∈ outcome.observer, entry.event = .line →
        entry.view.definition ∈ space.program.functions ∧
        entry.view.definition.firstLine ≤ entry.view.line ∧
        entry.view.line ≤ entry.view.definition.lastLine) ∧
    ∀ settings tracer spaces, Session settings tracer spaces → ∀ space ∈ spaces,
      ∀ name callable argument traced, space.callable name = .ok callable →
      argument.Within space.heap.functions.size →
      tracer.run? space callable argument = some traced →
      ∀ step ∈ traced.tracer.trace.steps, step.Quotes space := by
  refine ⟨?_, ?_⟩
  · intro source space reached callLimit strategy name callable arguments outcome found within ended
    obtain ⟨-, made, sound⟩ := reached.sound
    let good (log : List Entry) : Prop := ∀ entry ∈ log, entry.event = .line →
      entry.view.definition ∈ space.program.functions ∧
      entry.view.definition.firstLine ≤ entry.view.line ∧
      entry.view.line ≤ entry.view.definition.lastLine
    have kept : ∀ inner, some (Hook.logging strategy) = some inner → ∀ view event log,
        view.Belongs space.id space.program.functions →
        (event = .line → view.definition.Covers space.source view.line) → good log →
        good (inner.notify view event log).2 := by
      rintro _ ⟨⟩ view event log belongs lines logged
      refine List.forall_mem_append.mpr ⟨logged, List.forall_mem_singleton.mpr fun isLine => ?_⟩
      exact ⟨belongs.definition, (lines isLine).first, (lines isLine).last⟩
    rw [sound.heap.size] at within
    exact (sound.call?_keeps good kept (List.forall_mem_nil _) (sound.callable found) within ended).1
  · intro settings tracer spaces session space member name callable argument traced found within ended
    exact (session.orderly.traced member found within ended).2

/-- A function whose only statement takes two lines, at the end of the source. -/
def lastLines : Definition :=
  ⟨0, "f", [⟨"x", none⟩], [.mk 3 false (.giveBack (some (.tuple [.name "x", .int 2])))], 1, 4, ["x"]⟩

def lastLinesSpace : Namespace :=
  let (function, heap) := Heap.empty.newFunction ⟨1, 0, "f", []⟩
  ⟨1, "def f(x):\n\n  return (x,\n    2)", ⟨[lastLines], [.mk 1 false (.define 0)]⟩,
    ⟨[("f", function)]⟩, heap⟩

set_option maxRecDepth 5000 in
/-- The statement is recorded with the text of the line that it starts on. -/
theorem recorded_lines_quote_source_lastLines : ∃ tracer traced,
    Session ⟨5, 10⟩ tracer [lastLinesSpace] ∧
    tracer.run? lastLinesSpace ⟨"f", .function ⟨1, 0, "f", []⟩⟩ (.int 0) = some traced ∧
    traced.tracer.trace.steps.toList.map (fun step => (step.line, step.code)) =
      [(3, "return (x,")] ∧
    ∀ step ∈ traced.tracer.trace.steps, step.Quotes lastLinesSpace := by
  have accepted : Program.parse? lastLinesSpace.source = some (.ok lastLinesSpace.program) := by
    cbv
  have compiled : Namespace.compile? 1 lastLinesSpace.source 5 = some (.ok lastLinesSpace) := by
    simp only [Namespace.compile?, accepted]
    rfl
  let tracer : Tracer := (Tracer.ofSettings ⟨5, 10⟩).passing 1
  have numbered : (Tracer.ofSettings ⟨5, 10⟩).compile? lastLinesSpace.source =
      some (.ok lastLinesSpace, tracer) := Tracer.compile?_eq_some.mpr ⟨compiled, rfl⟩
  have session := Session.fresh.compiled numbered
  have steps : (tracer.run? lastLinesSpace ⟨"f", .function ⟨1, 0, "f", []⟩⟩ (.int 0)).map
      (fun traced => traced.tracer.trace.steps.toList.map fun step => (step.line, step.code)) =
        some [(3, "return (x,")] := by
    decide +kernel
  obtain ⟨traced, ended, steps⟩ := Option.map_eq_some_iff.mp steps
  have quotes := recorded_lines_quote_source.2 _ _ _ session _ List.mem_cons_self "f" _ (.int 0) traced
    rfl trivial ended
  exact ⟨tracer, traced, session, ended, steps, quotes⟩

end Stepwise.Record
