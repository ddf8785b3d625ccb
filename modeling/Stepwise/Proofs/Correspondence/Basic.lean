import Stepwise.Proofs.Growth.Action

/-!
Relations between two runs of the same code.

A `Congruence` is a relation between effects that sequencing respects.  A `Correspondence` says what
three of them have to do with the few effects that look at frames, globals, the printed text and the
hook; everything else that code does follows from that.
-/

namespace Stepwise.Run

open Script Effect

/-- A relation between effects that sequencing respects.  Steps that let the heap grow are related to
themselves. -/
structure Congruence (σ τ : Type) where
  Relates : {α : Type} → Effect σ α → Effect τ α → Prop
  pure {α : Type} (value : α) : Relates (Pure.pure value) (Pure.pure value)
  bind {α β : Type} {first : Effect σ α} {second : Effect τ α}
    {firstNext : α → Effect σ β} {secondNext : α → Effect τ β} :
    Relates first second → (∀ value, Relates (firstNext value) (secondNext value)) →
    Relates (first >>= firstNext) (second >>= secondNext)
  raise {α : Type} (error : RuntimeError) :
    Relates (throw error : Effect σ α) (throw error : Effect τ α)
  exhausted {α : Type} : Relates (Effect.exhausted : Effect σ α) (Effect.exhausted : Effect τ α)
  onHeap {α : Type} {action : Action α} : action.Grows →
    Relates (Effect.onHeap action : Effect σ α) (Effect.onHeap action : Effect τ α)

namespace Congruence

variable {σ τ α β : Type} (relation : Congruence σ τ)

theorem view (look : Heap → α) :
    relation.Relates (Effect.view look : Effect σ α) (Effect.view look : Effect τ α) :=
  relation.onHeap (.observe look)

theorem map (change : α → β) {first : Effect σ α} {second : Effect τ α}
    (related : relation.Relates first second) :
    relation.Relates (change <$> first) (change <$> second) := by
  rw [map_eq_pure_bind, map_eq_pure_bind]
  exact relation.bind related fun value => relation.pure (change value)

end Congruence

/-- Four relations between the runs of two environments: between effects that keep their frame,
effects that may bind variables of the innermost comprehension, effects that may bind names of the
frame, and effects that may do whatever a statement does. -/
structure Correspondence {σ τ : Type} (environment : Environment σ) (other : Environment τ) where
  expression : Congruence σ τ
  comprehension : Congruence σ τ
  binding : Congruence σ τ
  statement : Congruence σ τ
  namespaceId : environment.namespaceId = other.namespaceId
  functions : environment.functions = other.functions
  comprehension_of_expression {α : Type} {first : Effect σ α} {second : Effect τ α} :
    expression.Relates first second → comprehension.Relates first second
  binding_of_expression {α : Type} {first : Effect σ α} {second : Effect τ α} :
    expression.Relates first second → binding.Relates first second
  statement_of_binding {α : Type} {first : Effect σ α} {second : Effect τ α} :
    binding.Relates first second → statement.Relates first second
  binding? (name : String) : expression.Relates (Effect.binding? name) (Effect.binding? name)
  load (name : String) : expression.Relates (Effect.load name) (Effect.load name)
  write (text : String) : expression.Relates (Effect.write text) (Effect.write text)
  bindVariable (name : String) (value : Value) :
    comprehension.Relates (Effect.bindVariable name value) (Effect.bindVariable name value)
  inScope {α : Type} {first : Effect σ α} {second : Effect τ α} :
    comprehension.Relates first second → expression.Relates (Effect.inScope first) (Effect.inScope second)
  store (name : String) (value : Value) :
    binding.Relates (Effect.store name value) (Effect.store name value)
  moveToLine (line : Nat) : statement.Relates (Run.moveToLine line) (Run.moveToLine line)
  reportLine (line : Nat) :
    statement.Relates (Run.reportLine environment line) (Run.reportLine other line)
  callFunction (fuel : Nat) (function : FunctionObject) (arguments : List Value)
    (keywords : Keywords) :
    (∀ block, statement.Relates ((level environment fuel).execute block)
      ((level other fuel).execute block)) →
    expression.Relates
      (Run.callFunction environment (level environment fuel) function arguments keywords)
      (Run.callFunction other (level other fuel) function arguments keywords)

variable {σ τ : Type} {environment : Environment σ} {other : Environment τ}

theorem Correspondence.statement_of_expression (relation : Correspondence environment other)
    {α : Type} {first : Effect σ α} {second : Effect τ α}
    (related : relation.expression.Relates first second) : relation.statement.Relates first second :=
  relation.statement_of_binding (relation.binding_of_expression related)

structure Correspondence.Levels (relation : Correspondence environment other) (below : Level σ)
    (otherBelow : Level τ) : Prop where
  evaluate (expr : Expr) :
    relation.expression.Relates (below.evaluate expr) (otherBelow.evaluate expr)
  execute (block : List Statement) :
    relation.statement.Relates (below.execute block) (otherBelow.execute block)
  call (function : Value) (arguments : List Value) (keywords : Keywords) :
    relation.expression.Relates (below.call function arguments keywords)
      (otherBelow.call function arguments keywords)

end Stepwise.Run
