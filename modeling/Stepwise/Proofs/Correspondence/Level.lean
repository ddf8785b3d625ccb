import Stepwise.Proofs.Correspondence.Expressions

/-!
Statements, blocks and calls correspond if the levels below do.

`Correspondence.level` closes the circle: it is the one induction over everything that code does.
A property of a single run is read off a correspondence that ignores its second side.
-/

namespace Stepwise.Script

def Form.hasBlock : Form → Bool
  | .branch .. => true
  | .whileLoop .. => true
  | .forLoop .. => true
  | _ => false

end Stepwise.Script

namespace Stepwise.Run.Correspondence

open Script Effect

namespace Levels

variable {σ τ : Type} {environment : Environment σ} {other : Environment τ}
  {relation : Correspondence environment other} {below : Level σ} {otherBelow : Level τ}
  (levels : relation.Levels below otherBelow)

include levels

theorem assign (target : Target) (value : Value) :
    relation.binding.Relates (Run.assign below target value)
      (Run.assign otherBelow target value) :=
  assignBy levels relation.binding relation.binding_of_expression relation.store target value

theorem augment (op : BinaryOp) (operand : Expr) (target : Target) :
    relation.binding.Relates (Run.augment below op operand target)
      (Run.augment otherBelow op operand target) := by
  have evaluated := fun expr => relation.binding_of_expression (levels.evaluate expr)
  cases target with
  | name name =>
      have loaded := relation.binding_of_expression (relation.load name)
      refine relation.binding.bind loaded fun current => ?_
      refine relation.binding.bind (evaluated operand) fun operand => ?_
      exact relation.binding.bind (relation.binding.onHeap (.augmented _ _ _)) fun value =>
        relation.store name value
  | index object index =>
      refine relation.binding.bind (evaluated object) fun object => ?_
      refine relation.binding.bind (evaluated index) fun index => ?_
      refine relation.binding.bind (relation.binding.onHeap (.item _ _)) fun current => ?_
      refine relation.binding.bind (evaluated operand) fun operand => ?_
      exact relation.binding.bind (relation.binding.onHeap (.augmented _ _ _)) fun _ =>
        relation.binding.onHeap (.setItem _ _ _)
  | unpack targets => exact relation.binding.raise _

theorem assignEach (value : Value) (targets : List Target) :
    relation.binding.Relates (Run.assignEach below value targets)
      (Run.assignEach otherBelow value targets) := by
  induction targets with
  | nil => exact relation.binding.pure ()
  | cons target rest inductionHypothesis =>
      exact relation.binding.bind (levels.assign target value) fun _ => inductionHypothesis

theorem define (id : Nat) :
    relation.binding.Relates (Run.define environment below id)
      (Run.define other otherBelow id) := by
  unfold Run.define
  rw [← relation.functions, ← relation.namespaceId]
  cases environment.functions[id]? with
  | none => exact relation.binding.raise _
  | some definition =>
      have defaults := relation.binding_of_expression
        (levels.evaluateAll (definition.parameters.filterMap Parameter.default))
      refine relation.binding.bind defaults fun defaults => ?_
      exact relation.binding.bind (relation.binding.onHeap (.newFunction _)) fun function =>
        relation.store definition.name function

omit levels in
theorem isException (relation : Correspondence environment other) (name : String) :
    relation.expression.Relates (Run.isException name) (Run.isException name) := by
  unfold Run.isException
  split
  · exact relation.expression.bind (relation.binding? name) fun bound =>
      relation.expression.pure bound.isNone
  · exact relation.expression.pure false

theorem raiseOther (expr : Expr) :
    relation.expression.Relates (Run.raiseOther below expr) (Run.raiseOther otherBelow expr) :=
  relation.expression.bind (levels.evaluate expr) fun _ => relation.expression.pure _

theorem errorToRaise (expr : Option Expr) :
    relation.expression.Relates (Run.errorToRaise below expr)
      (Run.errorToRaise otherBelow expr) := by
  unfold Run.errorToRaise
  split
  · exact relation.expression.pure nothingToRaise
  · refine relation.expression.bind (isException relation _) fun isClass => ?_
    cases isClass with
    | false => exact levels.raiseOther _
    | true =>
        simp only [if_true]
        exact relation.expression.view _
  · refine relation.expression.bind (isException relation _) fun isClass => ?_
    cases isClass with
    | false => exact levels.raiseOther _
    | true =>
        exact relation.expression.bind (levels.evaluateArguments _) fun given =>
          relation.expression.view _
  · exact levels.raiseOther _

theorem assertionMessage (expr : Option Expr) :
    relation.expression.Relates (Run.assertionMessage below expr)
      (Run.assertionMessage otherBelow expr) := by
  cases expr with
  | none => exact relation.expression.pure none
  | some expr =>
      exact relation.expression.bind (levels.evaluate expr) fun value =>
        relation.expression.map some (relation.expression.view value.display)

theorem executeSimple (fuel line : Nat) (form : Form) (simple : form.hasBlock = false) :
    relation.binding.Relates (Run.executeForm environment below fuel line form)
      (Run.executeForm other otherBelow fuel line form) := by
  have evaluated := fun expr => relation.binding_of_expression (levels.evaluate expr)
  have tested := fun test => relation.binding_of_expression (levels.holds test)
  cases form with
  | branch test body orelse => cases simple
  | whileLoop test body => cases simple
  | forLoop target iterable body => cases simple
  | expr expr =>
      exact relation.binding.bind (evaluated expr) fun _ => relation.binding.pure Flow.normal
  | assign targets expr =>
      refine relation.binding.bind (evaluated expr) fun value => ?_
      exact relation.binding.bind (levels.assignEach value targets) fun _ =>
        relation.binding.pure Flow.normal
  | augment target op expr =>
      exact relation.binding.bind (levels.augment op expr target) fun _ =>
        relation.binding.pure Flow.normal
  | breakLoop => exact relation.binding.pure Flow.breaking
  | continueLoop => exact relation.binding.pure Flow.continuing
  | pass => exact relation.binding.pure Flow.normal
  | giveBack expr =>
      have value := relation.binding_of_expression (levels.evaluateOption expr)
      exact relation.binding.bind value fun value =>
        relation.binding.pure (Flow.returning (value.getD .none))
  | raise expr =>
      have error := relation.binding_of_expression (levels.errorToRaise expr)
      exact relation.binding.bind error fun error => relation.binding.raise error
  | assert test message =>
      refine relation.binding.bind (tested test) fun truth => ?_
      cases truth with
      | false =>
          have message := relation.binding_of_expression (levels.assertionMessage message)
          exact relation.binding.bind message fun _ => relation.binding.raise _
      | true => exact relation.binding.pure Flow.normal
  | define id =>
      exact relation.binding.bind (levels.define id) fun _ => relation.binding.pure Flow.normal

theorem whileLoop (line : Nat) (test : Expr) (body : List Statement) (fuel : Nat) :
    relation.statement.Relates (Run.whileLoop environment below line test body fuel)
      (Run.whileLoop other otherBelow line test body fuel) := by
  induction fuel with
  | zero => exact relation.statement.exhausted
  | succ fuel inductionHypothesis =>
      refine relation.statement.bind (relation.reportLine line) fun _ => ?_
      have tested := relation.statement_of_expression (levels.holds test)
      refine relation.statement.bind tested fun truth => ?_
      cases truth with
      | false => exact relation.statement.pure Flow.normal
      | true =>
          refine relation.statement.bind (levels.execute body) fun flow => ?_
          cases flow with
          | normal => exact inductionHypothesis
          | breaking => exact relation.statement.pure Flow.normal
          | continuing => exact inductionHypothesis
          | returning value => exact relation.statement.pure (Flow.returning value)

theorem forLoop (line : Nat) (target : Target) (body : List Statement) (fuel : Nat) (walk : Walk) :
    relation.statement.Relates (Run.forLoop environment below line target body fuel walk)
      (Run.forLoop other otherBelow line target body fuel walk) := by
  induction fuel generalizing walk with
  | zero => exact relation.statement.exhausted
  | succ fuel inductionHypothesis =>
      refine relation.statement.bind (relation.statement.onHeap (.next _)) fun fetched => ?_
      cases fetched with
      | none => exact relation.statement.pure Flow.normal
      | some fetched =>
          obtain ⟨item, walk⟩ := fetched
          have assigned := relation.statement_of_binding (levels.assign target item)
          refine relation.statement.bind assigned fun _ => ?_
          refine relation.statement.bind (levels.execute body) fun flow => ?_
          have again := relation.statement.bind (relation.reportLine line) fun _ =>
            inductionHypothesis walk
          cases flow with
          | normal => exact again
          | breaking => exact relation.statement.pure Flow.normal
          | continuing => exact again
          | returning value => exact relation.statement.pure (Flow.returning value)

theorem executeForm (fuel line : Nat) (form : Form) :
    relation.statement.Relates (Run.executeForm environment below fuel line form)
      (Run.executeForm other otherBelow fuel line form) := by
  cases form with
  | branch test body orelse =>
      have tested := relation.statement_of_expression (levels.holds test)
      refine relation.statement.bind tested fun truth => ?_
      cases truth with
      | false => exact levels.execute orelse
      | true => exact levels.execute body
  | whileLoop test body => exact levels.whileLoop line test body fuel
  | forLoop target iterable body =>
      have evaluated := relation.statement_of_expression (levels.evaluate iterable)
      refine relation.statement.bind (relation.reportLine line) fun _ => ?_
      refine relation.statement.bind evaluated fun iterable => ?_
      exact relation.statement.bind (relation.statement.onHeap (.walk _)) fun walk =>
        levels.forLoop line target body fuel walk
  | _ => exact relation.statement_of_binding (levels.executeSimple fuel line _ rfl)

theorem executeStatement (fuel : Nat) (statement : Statement) :
    relation.statement.Relates (Run.executeStatement environment below fuel statement)
      (Run.executeStatement other otherBelow fuel statement) := by
  obtain ⟨line, sameLine, form⟩ := statement
  have executed := levels.executeForm fuel line form
  unfold Run.executeStatement
  by_cases loops : isLoop form
  · simp only [loops]
    exact executed
  · simp only [loops]
    cases sameLine with
    | false => exact relation.statement.bind (relation.reportLine line) fun _ => executed
    | true => exact relation.statement.bind (relation.moveToLine line) fun _ => executed

theorem executeBlock (fuel : Nat) (block : List Statement) :
    relation.statement.Relates (Run.executeBlock environment below fuel block)
      (Run.executeBlock other otherBelow fuel block) := by
  induction block with
  | nil => exact relation.statement.pure Flow.normal
  | cons statement rest inductionHypothesis =>
      refine relation.statement.bind (levels.executeStatement fuel statement) fun flow => ?_
      cases flow with
      | normal => exact inductionHypothesis
      | breaking => exact relation.statement.pure Flow.breaking
      | continuing => exact relation.statement.pure Flow.continuing
      | returning value => exact relation.statement.pure (Flow.returning value)

end Levels

variable {σ τ : Type} {environment : Environment σ} {other : Environment τ}
  (relation : Correspondence environment other)

theorem callValue (fuel : Nat) (levels : relation.Levels (level environment fuel) (level other fuel))
    (function : Value) (arguments : List Value) (keywords : Keywords) :
    relation.expression.Relates
      (Run.callValue environment (level environment fuel) fuel function arguments keywords)
      (Run.callValue other (level other fuel) fuel function arguments keywords) := by
  cases function with
  | function ref =>
      exact relation.expression.bind (relation.expression.view _) fun function =>
        relation.callFunction fuel function arguments keywords levels.execute
  | builtin builtin => exact levels.applyBuiltin fuel builtin arguments keywords
  | _ =>
      simp only [Run.callValue]
      exact relation.expression.onHeap (.typeError _ _)

theorem level (fuel : Nat) :
    relation.Levels (Run.level environment fuel) (Run.level other fuel) := by
  -- code of a level runs its parts on the level below
  induction fuel with
  | zero =>
      exact ⟨fun _ => relation.expression.exhausted, fun _ => relation.statement.exhausted,
        fun _ _ _ => relation.expression.exhausted⟩
  | succ fuel inductionHypothesis =>
      exact ⟨inductionHypothesis.evaluateForm fuel, inductionHypothesis.executeBlock fuel,
        relation.callValue fuel inductionHypothesis⟩

theorem call (callee : Callee) (fuel : Nat) (arguments : List Value) :
    relation.expression.Relates (callee.call environment fuel arguments)
      (callee.call other fuel arguments) := by
  have levels := relation.level fuel
  cases callee with
  | function object => exact relation.callFunction fuel object arguments [] levels.execute
  | builtin named => exact levels.applyBuiltin fuel named arguments []

end Stepwise.Run.Correspondence
