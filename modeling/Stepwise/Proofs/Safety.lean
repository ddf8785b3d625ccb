import Mathlib
import Stepwise.Proofs.Twins.Namespaces

/-!
Accepted programs run into no fault of the interpreter.

The errors that a run of an accepted program ends with are errors of the script, and its bodies are left
only by what can leave them.  The first rests on what namespaces of the program hold; the second does
not depend on the machine at all.
-/

namespace Stepwise.Run

open Script Effect

/-- How a block can end, inside a loop of its body or outside of any. -/
def Flow.Fits (inLoop : Bool) : Flow → Prop
  | .breaking => inLoop = true
  | .continuing => inLoop = true
  | _ => True

variable {σ α β : Type}

/-- All results of an effect are as expected, whatever machine it starts from. -/
def Effect.Gives (effect : Effect σ α) (expected : α → Prop) : Prop :=
  ∀ machine value after, effect machine = some (.ok value, after) → expected value

namespace Effect.Gives

variable {effect : Effect σ α} {expected : α → Prop}

theorem pure {value : α} (holds : expected value) :
    Gives (Pure.pure value : Effect σ α) expected := by
  intro machine value after ended
  cases ended
  exact holds

theorem throw (error : RuntimeError) : Gives (MonadExcept.throw error : Effect σ α) expected := by
  intro machine value after ended
  cases ended

theorem exhausted : Gives (Effect.exhausted : Effect σ α) expected := by
  intro machine value after ended
  cases ended

theorem bind {next : α → Effect σ β} {wanted : β → Prop} (gives : Gives effect expected)
    (rest : ∀ value, expected value → Gives (next value) wanted) :
    Gives (effect >>= next) wanted := by
  intro machine value after ended
  rcases bind_ended ended with ⟨error, _, failed⟩ | ⟨first, middle, reached, ended⟩
  · cases failed
  · exact rest first (gives machine first middle reached) middle value after ended

theorem last {next : α → Effect σ β} {wanted : β → Prop} (rest : ∀ value, Gives (next value) wanted) :
    Gives (effect >>= next) wanted := by
  have anything : Gives effect fun _ => True := fun _ _ _ _ => trivial
  exact anything.bind fun value _ => rest value

end Effect.Gives

section

variable {environment : Environment σ} {below : Level σ} {inFunction inLoop : Bool}

abbrev Suited (inFunction inLoop : Bool) (block : List Statement) : Prop :=
  Everywhere (fun inLoop statement => statement.form.suits inFunction inLoop = true) inLoop block

theorem executeSimple_fits {form : Form} (simple : form.hasBlock = false)
    (suits : form.suits inFunction inLoop = true) (fuel line : Nat) :
    (executeForm environment below fuel line form).Gives (Flow.Fits inLoop) := by
  cases form with
  | branch test body orelse => cases simple
  | whileLoop test body => cases simple
  | forLoop target iterable body => cases simple
  | expr expr => exact .last fun _ => .pure trivial
  | assign targets expr => exact .last fun _ => .last fun _ => .pure trivial
  | augment target op expr => exact .last fun _ => .pure trivial
  | breakLoop => exact .pure suits
  | continueLoop => exact .pure suits
  | pass => exact .pure trivial
  | giveBack expr => exact .last fun _ => .pure trivial
  | raise expr => exact .last fun error => .throw error
  | assert test message =>
      refine .last fun truth => ?_
      cases truth with
      | false => exact .last fun _ => .throw _
      | true => exact .pure trivial
  | define id => exact .last fun _ => .pure trivial

variable (executes : ∀ {inLoop : Bool} {block : List Statement}, Suited inFunction inLoop block →
  (below.execute block).Gives (Flow.Fits inLoop))

include executes

theorem whileLoop_fits {body : List Statement} (suited : Suited inFunction true body) (line : Nat)
    (test : Expr) (fuel : Nat) :
    (whileLoop environment below line test body fuel).Gives (Flow.Fits inLoop) := by
  induction fuel with
  | zero => exact .exhausted
  | succ fuel inductionHypothesis =>
      refine .last fun _ => .last fun truth => ?_
      cases truth with
      | false => exact .pure trivial
      | true =>
          refine (executes suited).bind fun flow _ => ?_
          cases flow with
          | normal => exact inductionHypothesis
          | breaking => exact .pure trivial
          | continuing => exact inductionHypothesis
          | returning value => exact .pure trivial

theorem forLoop_fits {body : List Statement} (suited : Suited inFunction true body) (line : Nat)
    (target : Target) (fuel : Nat) (walk : Walk) :
    (forLoop environment below line target body fuel walk).Gives (Flow.Fits inLoop) := by
  induction fuel generalizing walk with
  | zero => exact .exhausted
  | succ fuel inductionHypothesis =>
      refine .last fun fetched => ?_
      cases fetched with
      | none => exact .pure trivial
      | some fetched =>
          refine .last fun _ => (executes suited).bind fun flow _ => ?_
          cases flow with
          | normal => exact .last fun _ => inductionHypothesis _
          | breaking => exact .pure trivial
          | continuing => exact .last fun _ => inductionHypothesis _
          | returning value => exact .pure trivial

theorem executeStatement_fits {statement : Statement} {rest : List Statement}
    (suited : Suited inFunction inLoop (statement :: rest)) (fuel : Nat) :
    (executeStatement environment below fuel statement).Gives (Flow.Fits inLoop) := by
  -- coming to its line does not decide how a statement ends
  have onLine : ∀ {line form}, (executeForm environment below fuel line form).Gives (Flow.Fits inLoop) →
      ∀ sameLine, (executeStatement environment below fuel (.mk line sameLine form)).Gives
        (Flow.Fits inLoop) := by
    intro line form executed sameLine
    unfold executeStatement
    by_cases loops : isLoop form
    · simp only [loops]
      exact executed
    · simp only [loops]
      cases sameLine with
      | false => exact .last fun _ => executed
      | true => exact .last fun _ => executed
  cases suited with
  | simple line sameLine simple suits rest =>
      exact onLine (executeSimple_fits simple suits fuel line) sameLine
  | branch line sameLine test suits body orelse rest =>
      refine onLine (.last fun truth => ?_) sameLine
      cases truth with
      | false => exact executes orelse
      | true => exact executes body
  | whileLoop line sameLine test suits body rest =>
      refine onLine ?_ sameLine
      exact whileLoop_fits executes body line test fuel
  | forLoop line sameLine target iterable suits body rest =>
      refine onLine ?_ sameLine
      exact .last fun _ => .last fun _ => .last fun walk =>
        forLoop_fits executes body line target fuel walk

theorem executeBlock_fits {block : List Statement} (suited : Suited inFunction inLoop block)
    (fuel : Nat) : (executeBlock environment below fuel block).Gives (Flow.Fits inLoop) := by
  induction block with
  | nil => exact .pure trivial
  | cons statement rest inductionHypothesis =>
      refine (executeStatement_fits executes suited fuel).bind fun flow fits => ?_
      cases flow with
      | normal => exact inductionHypothesis suited.tail
      | breaking => exact .pure fits
      | continuing => exact .pure fits
      | returning value => exact .pure fits

end

/-- A block ends as its surroundings allow, in every environment and from every machine. -/
theorem level_fits (environment : Environment σ) (fuel : Nat) {inFunction inLoop : Bool}
    {block : List Statement} (suited : Suited inFunction inLoop block) :
    ((level environment fuel).execute block).Gives (Flow.Fits inLoop) := by
  induction fuel generalizing inLoop block with
  | zero => exact .exhausted
  | succ fuel inductionHypothesis => exact executeBlock_fits inductionHypothesis suited fuel

theorem Flow.Fits.outside {flow : Flow} (fits : flow.Fits false) :
    flow ≠ .breaking ∧ flow ≠ .continuing := by
  cases flow with
  | breaking => cases fits
  | continuing => cases fits
  | normal => exact ⟨nofun, nofun⟩
  | returning value => exact ⟨nofun, nofun⟩

theorem Fine.not_internal {result : Except RuntimeError α} {expected : α → Prop}
    (fine : Fine expected result) (problem : InternalProblem) :
    result ≠ .error (.internal problem) := by
  rintro rfl
  exact fine

/-- An accepted program runs into no fault of the interpreter.

Its top-level statements do not end with an internal error, and nor does a call of what a name is bound
to in a namespace of the program, with arguments made from interchange values, under any hook and after
whatever has been done to the namespace before.  Neither the top-level statements nor the body of a
function end with a `break` or a `continue` that is still to be obeyed, from any machine. -/
theorem accepted_runs_safely {source : String} {program : Program}
    (accepted : Program.parse? source = some (.ok program)) :
    (∀ fuel id callLimit problem, Namespace.ofProgram? fuel id source callLimit program ≠
      some (.error (.failed (.internal problem)))) ∧
    (∀ space, Namespace.Reached source space →
      ∀ (τ : Type) callLimit (hook : Option (Hook τ)) observer name callable (items : List Json)
        outcome, space.callable name = .ok callable →
      { space with heap := (valuesOfJson space.heap items).2 }.call? callLimit hook observer callable
        (valuesOfJson space.heap items).1 = some outcome →
      ∀ problem, outcome.result ≠ .error (.internal problem)) ∧
    ∀ (τ : Type) (environment : Environment τ) fuel machine flow after, ∀ body,
      (body = program.body ∨ ∃ definition ∈ program.functions, body = definition.body) →
      (level environment fuel).execute body machine = some (.ok flow, after) →
      flow ≠ .breaking ∧ flow ≠ .continuing := by
  obtain ⟨shape, shaped⟩ := Program.parse?_shapes accepted
  refine ⟨?_, ?_, ?_⟩
  · intro fuel id callLimit problem failed
    have twin := Namespace.ofProgram?_twin (Program.parse?_sound accepted) fuel id id callLimit
    rw [failed] at twin
    cases twin with
    | some twin => exact twin.2
  · intro space reached τ callLimit hook observer name callable items outcome found ended
    obtain ⟨-, made, sound⟩ := reached.sound
    obtain ⟨within, kept⟩ := valuesOfJson_keeps sound.heap.holds items
    have given := (Namespace.Next.given space items).sound sound
    have offered := sound.callable found
    exact (given.call?_keeps (fun _ => True) (fun _ _ _ _ _ _ _ _ => trivial) trivial offered within
      ended).2.2.not_internal
  · rintro τ environment fuel machine flow after _ (rfl | ⟨definition, member, rfl⟩) ended
    · exact (level_fits environment fuel shape.suits machine flow after ended).outside
    · have fits := level_fits environment fuel (shaped definition member).suits
      exact (fits machine flow after ended).outside

def firstRound : Definition :=
  ⟨0, "f", [⟨"x", none⟩],
    [.mk 2 false (.whileLoop (.name "x") [.mk 2 true .breakLoop]),
      .mk 3 false (.giveBack (some (.name "x")))], 1, 3, ["x"]⟩

def firstRoundSpace : Namespace :=
  let (function, heap) := Heap.empty.newFunction ⟨1, 0, "f", []⟩
  ⟨1, "def f(x):\n  while x: break\n  return x\n", ⟨[firstRound], [.mk 1 false (.define 0)]⟩,
    ⟨[("f", function)]⟩, heap⟩

/-- The function can be called, and the call ends with a value. -/
theorem accepted_runs_safely_firstRound :
    Namespace.Reached firstRoundSpace.source firstRoundSpace ∧ ∃ outcome,
      firstRoundSpace.call? 5 (none : Option (Hook Unit)) ()
        ⟨"f", .function ⟨1, 0, "f", []⟩⟩ [.int 7] = some outcome ∧
      outcome.result.isOk = true ∧ ∀ problem, outcome.result ≠ .error (.internal problem) := by
  have accepted : Program.parse? firstRoundSpace.source = some (.ok firstRoundSpace.program) := by
    cbv
  have compiled : Namespace.compile? 1 firstRoundSpace.source 5 = some (.ok firstRoundSpace) := by
    simp only [Namespace.compile?, accepted]
    rfl
  have given : (firstRoundSpace.call? 5 (none : Option (Hook Unit)) ()
      ⟨"f", .function ⟨1, 0, "f", []⟩⟩ [.int 7]).map (fun outcome => outcome.result.isOk) =
        some true := by
    decide +kernel
  obtain ⟨outcome, ended, isOk⟩ := Option.map_eq_some_iff.mp given
  have reached := Namespace.Reached.compiled compiled
  have safe := (accepted_runs_safely accepted).2.1 _ reached Unit 5 none () "f" _ [.int 7] _ rfl ended
  exact ⟨reached, outcome, ended, isOk, safe⟩

end Stepwise.Run
