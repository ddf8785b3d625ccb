import Stepwise.Proofs.Twins.Expressions

/-!
Statements, blocks and calls end alike in twin namespaces.

Only a `def` makes a function, and it can stand outside of functions only.  `Twins.level` is the one
induction over everything that code does; a property of a single namespace is read off its being its
own twin.
-/

namespace Stepwise.Run

open Script Effect

theorem raisedMessage_rehomed (home : Nat) (heap : Heap) (arguments : List Value) :
    raisedMessage (heap.rehomed home) arguments = raisedMessage heap arguments := by
  match arguments with
  | [] => rfl
  | [value] => exact display_rehomed home heap value
  | first :: second :: rest => exact render_rehomed home heap _

theorem raisedError_rehomed (home : Nat) (heap : Heap) (className : String)
    (arguments : List Value) :
    raisedError (heap.rehomed home) className arguments = raisedError heap className arguments := by
  have rendered : Value.render (heap.rehomed home) = Value.render heap :=
    funext fun value => render_rehomed home heap value
  simp only [raisedError, raisedMessage_rehomed, rendered]

theorem raisedError_genuine (heap : Heap) {className : String}
    (isClass : namesException className = true) (arguments : List Value) :
    (raisedError heap className arguments).Genuine := by
  unfold raisedError
  split
  · trivial
  · trivial
  · trivial
  · rintro rfl
    cases isClass

namespace Twins

variable {σ τ : Type} {twins : Twins σ τ} {below : Level σ} {otherBelow : Level τ}
  {code : Option Definition} {made : Nat}

/-- Making a function is what changes the number of functions. -/
theorem newFunction {id : Nat} (known : id < twins.functions.length) (name : String)
    {defaults : List Value} (within : AllWithin made defaults) :
    twins.Runs False code made
      (Effect.onHeap (Action.change fun heap => heap.newFunction ⟨twins.home, id, name, defaults⟩))
      (Effect.onHeap
        (Action.change fun heap => heap.newFunction ⟨twins.otherHome, id, name, defaults⟩))
      Value.Within := by
  intro machine other paired
  let object : FunctionObject := ⟨twins.home, id, name, defaults⟩
  have grows := Nat.le_succ made
  have heap := paired.sound.heap.withFunction (⟨rfl, known, within⟩ : object.Sound _ _ made)
  have sound : twins.Sound code (made + 1) { machine with heap := (machine.heap.newFunction object).2 } :=
    ⟨heap, paired.sound.globals.mono grows, paired.sound.frame.mono grows, paired.sound.listed⟩
  rw [paired.twin, onHeap_apply, onHeap_apply]
  refine .some ⟨made + 1, grows, False.elim, ?_, ⟨sound, ?_, paired.linked⟩, ?_⟩
  · simp only [Twins.twin, Heap.rehomed, Array.size_map]
  · simp only [Twins.twin, Heap.rehomed, Array.map_push]
  · show machine.heap.functions.size < made + 1
    rw [paired.sound.heap.size]
    exact Nat.lt_succ_self made

theorem bindable {targets : List Target}
    (assigns : ∀ definition, code = some definition →
      AllTargets (· ∈ definition.locals) targets) : AllTargets (Bindable code) targets := by
  cases code with
  | none => exact (all_addTargetNames [] targets).mono fun _ _ _ none => nomatch none
  | some definition =>
      refine (assigns definition rfl).mono fun name member other same => ?_
      cases same
      exact member

theorem isException (name : String) :
    twins.Steady code made (Run.isException name) (Run.isException name) fun isClass =>
      isClass = true → namesException name = true := by
  unfold Run.isException
  split
  · rename_i isName
    exact (binding? name).before fun bound _ => .pure fun _ => isName
  · exact .pure nofun

namespace Levels

variable (levels : twins.Levels below otherBelow)

include levels

theorem assign {target : Target} (bindable : target.All (Bindable code)) {value : Value}
    (within : value.Within made) :
    twins.Steady code made (Run.assign below target value) (Run.assign otherBelow target value)
      fun _ => True := by
  have binds : ∀ name value, Bindable code name → Value.Within made value → twins.Steady code made
      (Effect.store name value) (Effect.store name value) fun _ => True :=
    fun _ _ bindable within => store within bindable
  exact levels.assignBy binds bindable within

theorem assignEach {targets : List Target}
    (bindable : AllTargets (Bindable code) targets) {value : Value} (within : value.Within made) :
    twins.Steady code made (Run.assignEach below value targets)
      (Run.assignEach otherBelow value targets) fun _ => True := by
  induction targets with
  | nil => exact .pure trivial
  | cons target rest inductionHypothesis =>
      exact (levels.assign bindable.1 within).before fun _ _ => inductionHypothesis bindable.2

theorem augment (op : BinaryOp) (operand : Expr) {target : Target}
    (bindable : target.All (Bindable code))
    (single : ∀ targets, target ≠ .unpack targets) :
    twins.Steady code made (Run.augment below op operand target)
      (Run.augment otherBelow op operand target) fun _ => True := by
  cases target with
  | name name =>
      refine (load name).before fun current currentWithin => ?_
      refine (levels.evaluate operand).before fun operand operandWithin => ?_
      refine Runs.before (.onHeap (.augmented op currentWithin operandWithin)) fun value within => ?_
      exact store within bindable
  | index object index =>
      refine (levels.evaluate object).before fun object objectWithin => ?_
      refine (levels.evaluate index).before fun index _ => ?_
      refine Runs.before (.onHeap (.item objectWithin index)) fun current currentWithin => ?_
      refine (levels.evaluate operand).before fun operand operandWithin => ?_
      refine Runs.before (.onHeap (.augmented op currentWithin operandWithin)) fun value within => ?_
      exact .onHeap (.setItem within)
  | unpack targets => exact absurd rfl (single targets)

theorem define {id : Nat} (known : id < twins.functions.length) :
    twins.Runs False none made (Run.define twins.environment below id)
      (Run.define twins.otherEnvironment otherBelow id) fun _ _ => True := by
  obtain ⟨definition, found⟩ : ∃ definition, twins.functions[id]? = some definition :=
    ⟨_, List.getElem?_eq_getElem known⟩
  have foundHere : twins.environment.functions[id]? = some definition := found
  have foundThere : twins.otherEnvironment.functions[id]? = some definition := found
  unfold Run.define
  rw [foundHere, foundThere]
  refine (levels.evaluateAll _).before fun defaults within => ?_
  refine (newFunction known definition.name within).bind fun more function _ _ within => ?_
  have bindable : Bindable none definition.name := nofun
  exact (store within bindable).restrict False.elim

theorem raiseOther (expr : Expr) :
    twins.Steady code made (Run.raiseOther below expr) (Run.raiseOther otherBelow expr)
      RuntimeError.Genuine :=
  (levels.evaluate expr).before fun _ _ => .pure trivial

theorem errorToRaise (expr : Option Expr) :
    twins.Steady code made (Run.errorToRaise below expr) (Run.errorToRaise otherBelow expr)
      RuntimeError.Genuine := by
  have raised : ∀ {name} values, namesException name = true → Action.Tame made
      (Action.observe fun heap => raisedError heap name values) RuntimeError.Genuine :=
    fun values isClass => .observe (fun home heap => raisedError_rehomed home heap _ values)
      fun heap _ => raisedError_genuine heap isClass values
  unfold Run.errorToRaise
  split
  · exact .pure (by decide : "RuntimeError" ≠ "")
  · refine (isException _).before fun isClass isName => ?_
    cases isClass with
    | false => exact levels.raiseOther _
    | true => exact .onHeap (raised [] (isName rfl))
  · refine (isException _).before fun isClass isName => ?_
    cases isClass with
    | false => exact levels.raiseOther _
    | true =>
        exact (levels.evaluateArguments _).before fun given _ =>
          .onHeap (raised given.1 (isName rfl))
  · exact levels.raiseOther _

theorem assertionMessage (expr : Option Expr) :
    twins.Steady code made (Run.assertionMessage below expr)
      (Run.assertionMessage otherBelow expr) fun _ => True := by
  cases expr with
  | none => exact .pure trivial
  | some expr =>
      refine (levels.evaluate expr).before fun value _ => ?_
      exact .map some (.onHeap (.display value)) fun _ _ => trivial

theorem executeSimple (fuel : Nat) {inLoop : Bool} {line : Nat} {sameLine : Bool} {form : Form}
    (simple : form.hasBlock = false)
    (permitted : Permitted twins.functions.length twins.reports code inLoop (.mk line sameLine form)) :
    twins.Runs (code.isSome = true) code made
      (Run.executeForm twins.environment below fuel line form)
      (Run.executeForm twins.otherEnvironment otherBelow fuel line form) Flow.Within := by
  have assigned := bindable permitted.assigns
  have suits := permitted.suits
  cases form with
  | branch test body orelse => cases simple
  | whileLoop test body => cases simple
  | forLoop target iterable body => cases simple
  | expr expr => exact (levels.evaluate expr).before fun _ _ => .pure trivial
  | assign targets expr =>
      refine (levels.evaluate expr).before fun value within => ?_
      exact (levels.assignEach assigned within).before fun _ _ => .pure trivial
  | augment target op expr =>
      have single : ∀ targets, target ≠ .unpack targets := by
        rintro targets rfl
        cases suits
      exact (levels.augment op expr assigned.1 single).before fun _ _ => .pure trivial
  | breakLoop => exact .pure trivial
  | continueLoop => exact .pure trivial
  | pass => exact .pure trivial
  | giveBack expr =>
      refine (levels.evaluateOption expr).before fun value within => .pure ?_
      exact within_getD within trivial
  | raise expr => exact (levels.errorToRaise expr).before fun error genuine => .raise genuine
  | assert test message =>
      refine (levels.holds test).before fun truth _ => ?_
      cases truth with
      | false => exact (levels.assertionMessage message).before fun _ _ => .raise trivial
      | true => exact .pure trivial
  | define id =>
      -- the grammar allows a function at top level only
      have outside : code = none := by
        cases code with
        | none => rfl
        | some definition => cases suits
      cases outside
      have known := permitted.defines id rfl
      exact ((levels.define known).restrict Bool.false_ne_true).bind fun _ _ _ _ _ => .pure trivial

theorem whileLoop {line : Nat}
    (reported : ∀ definition, code = some definition → twins.reports definition line) (test : Expr)
    {body : List Statement}
    (everywhere : Everywhere (Permitted twins.functions.length twins.reports code) true body)
    (fuel : Nat) :
    twins.Runs (code.isSome = true) code made
      (Run.whileLoop twins.environment below line test body fuel)
      (Run.whileLoop twins.otherEnvironment otherBelow line test body fuel) Flow.Within := by
  induction fuel generalizing made with
  | zero => exact .exhausted
  | succ fuel inductionHypothesis =>
      refine (reportLine reported).before fun _ _ => ?_
      refine (levels.holds test).before fun truth _ => ?_
      cases truth with
      | false => exact .pure trivial
      | true =>
          refine (levels.execute everywhere).bind fun more flow _ _ within => ?_
          cases flow with
          | normal => exact inductionHypothesis
          | breaking => exact .pure trivial
          | continuing => exact inductionHypothesis
          | returning value => exact .pure within

theorem forLoop {line : Nat}
    (reported : ∀ definition, code = some definition → twins.reports definition line)
    {target : Target}
    (bindable : target.All (Bindable code))
    {body : List Statement}
    (everywhere : Everywhere (Permitted twins.functions.length twins.reports code) true body)
    (fuel : Nat) {walk : Walk} (ahead : walk.Within made) :
    twins.Runs (code.isSome = true) code made
      (Run.forLoop twins.environment below line target body fuel walk)
      (Run.forLoop twins.otherEnvironment otherBelow line target body fuel walk)
      Flow.Within := by
  induction fuel generalizing made walk with
  | zero => exact .exhausted
  | succ fuel inductionHypothesis =>
      refine Runs.before (.onHeap (.next ahead)) fun fetched bounds => ?_
      cases fetched with
      | none => exact .pure trivial
      | some fetched =>
          obtain ⟨item, walk⟩ := fetched
          obtain ⟨bound, ahead⟩ := bounds item walk rfl
          refine (levels.assign bindable bound).before fun _ _ => ?_
          refine (levels.execute everywhere).bind fun more flow grows _ within => ?_
          have again : twins.Runs _ code more (do
              Run.reportLine twins.environment line
              Run.forLoop twins.environment below line target body fuel walk) (do
              Run.reportLine twins.otherEnvironment line
              Run.forLoop twins.otherEnvironment otherBelow line target body fuel walk) _ :=
            (reportLine reported).before fun _ _ => inductionHypothesis (ahead.mono grows)
          cases flow with
          | normal => exact again
          | breaking => exact .pure trivial
          | continuing => exact again
          | returning value => exact .pure within

omit levels in
theorem executeOnLine (fuel : Nat) {line : Nat} {form : Form} (straight : isLoop form = false)
    (reported : ∀ definition, code = some definition → twins.reports definition line)
    (executed : twins.Runs (code.isSome = true) code made
      (Run.executeForm twins.environment below fuel line form)
      (Run.executeForm twins.otherEnvironment otherBelow fuel line form) Flow.Within)
    (sameLine : Bool) :
    twins.Runs (code.isSome = true) code made
      (Run.executeStatement twins.environment below fuel (.mk line sameLine form))
      (Run.executeStatement twins.otherEnvironment otherBelow fuel (.mk line sameLine form))
      Flow.Within := by
  unfold Run.executeStatement
  simp only [straight]
  cases sameLine with
  | false => exact (reportLine reported).before fun _ _ => executed
  | true => exact (moveToLine line).before fun _ _ => executed

theorem executeStatement (fuel : Nat) {inLoop : Bool} {statement : Statement} {rest : List Statement}
    (everywhere : Everywhere (Permitted twins.functions.length twins.reports code) inLoop
      (statement :: rest)) :
    twins.Runs (code.isSome = true) code made
      (Run.executeStatement twins.environment below fuel statement)
      (Run.executeStatement twins.otherEnvironment otherBelow fuel statement) Flow.Within := by
  have reported := everywhere.head.line
  cases everywhere with
  | @simple _ form _ line sameLine simple permitted rest =>
      have straight : isLoop form = false := by
        cases form <;> first | rfl | cases simple
      exact executeOnLine fuel straight reported (levels.executeSimple fuel simple permitted) sameLine
  | branch line sameLine test permitted body orelse rest =>
      refine executeOnLine fuel rfl reported ?_ sameLine
      refine (levels.holds test).before fun truth _ => ?_
      cases truth with
      | false => exact levels.execute orelse
      | true => exact levels.execute body
  | whileLoop line sameLine test permitted body rest =>
      exact levels.whileLoop reported test body fuel
  | forLoop line sameLine target iterable permitted body rest =>
      refine (reportLine reported).before fun _ _ => ?_
      refine (levels.evaluate iterable).before fun iterable within => ?_
      refine Runs.before (.onHeap (.walk within)) fun walk ahead => ?_
      exact levels.forLoop reported (bindable permitted.assigns).1 body fuel ahead

theorem executeBlock (fuel : Nat) {inLoop : Bool} {block : List Statement}
    (everywhere : Everywhere (Permitted twins.functions.length twins.reports code) inLoop block) :
    twins.Runs (code.isSome = true) code made
      (Run.executeBlock twins.environment below fuel block)
      (Run.executeBlock twins.otherEnvironment otherBelow fuel block) Flow.Within := by
  induction block generalizing made with
  | nil => exact .pure trivial
  | cons statement rest inductionHypothesis =>
      refine (levels.executeStatement fuel everywhere).bind fun more flow _ _ within => ?_
      cases flow with
      | normal => exact inductionHypothesis everywhere.tail
      | breaking => exact .pure within
      | continuing => exact .pure within
      | returning value => exact .pure within

theorem callValue (fuel : Nat) {function : Value} (functionWithin : function.Within made)
    {arguments : List Value} (within : AllWithin made arguments) {keywords : Keywords}
    (named : KeywordsWithin made keywords) :
    twins.Steady code made
      (Run.callValue twins.environment below fuel function arguments keywords)
      (Run.callValue twins.otherEnvironment otherBelow fuel function arguments keywords)
      (Value.Within made) := by
  cases function with
  | function ref =>
      intro machine other paired
      have inside : ref < machine.heap.functions.size :=
        paired.sound.heap.size ▸ functionWithin
      have there : other.heap.function ref =
          { machine.heap.function ref with home := twins.otherHome } := by
        rw [paired.twin]
        exact rehomed_function twins.otherHome inside
      have called := callFunction (paired.sound.heap.function functionWithin) within named
        (fun definition member => (levels.execute (twins.bodies definition member)).restrict fun _ => rfl)
        machine other paired
      rw [← there] at called
      exact called
  | builtin builtin => exact levels.applyBuiltin fuel builtin within named
  | _ => exact .onHeap (.typeError _ _)

end Levels

theorem level (twins : Twins σ τ) (fuel : Nat) :
    twins.Levels (Run.level twins.environment fuel) (Run.level twins.otherEnvironment fuel) := by
  -- code of a level runs its parts on the level below
  induction fuel with
  | zero => exact ⟨fun _ => .exhausted, fun _ => .exhausted, fun _ _ _ => .exhausted⟩
  | succ fuel inductionHypothesis =>
      exact ⟨inductionHypothesis.evaluateForm fuel, inductionHypothesis.executeBlock fuel,
        fun function within named => inductionHypothesis.callValue fuel function within named⟩

end Twins

end Stepwise.Run
