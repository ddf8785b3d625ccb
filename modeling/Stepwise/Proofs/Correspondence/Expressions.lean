import Stepwise.Proofs.Correspondence.Basic

/-!
The values of expressions correspond if the levels below do.
-/

namespace Stepwise.Run.Correspondence.Levels

open Script Effect

variable {σ τ : Type} {environment : Environment σ} {other : Environment τ}
  {relation : Correspondence environment other} {below : Level σ} {otherBelow : Level τ}
  (levels : relation.Levels below otherBelow)

include levels

theorem holds (test : Expr) :
    relation.expression.Relates (Run.holds below test) (Run.holds otherBelow test) :=
  relation.expression.bind (levels.evaluate test) fun value =>
    relation.expression.view value.truthy

theorem evaluateAll (exprs : List Expr) :
    relation.expression.Relates (Run.evaluateAll below exprs) (Run.evaluateAll otherBelow exprs) := by
  induction exprs with
  | nil => exact relation.expression.pure []
  | cons expr rest inductionHypothesis =>
      refine relation.expression.bind (levels.evaluate expr) fun value => ?_
      exact relation.expression.bind inductionHypothesis fun values =>
        relation.expression.pure (value :: values)

theorem evaluateOption (expr : Option Expr) :
    relation.expression.Relates (Run.evaluateOption below expr)
      (Run.evaluateOption otherBelow expr) := by
  cases expr with
  | none => exact relation.expression.pure none
  | some expr => exact relation.expression.map some (levels.evaluate expr)

theorem evaluateArguments (arguments : List Argument) :
    relation.expression.Relates (Run.evaluateArguments below arguments)
      (Run.evaluateArguments otherBelow arguments) := by
  induction arguments with
  | nil => exact relation.expression.pure ([], [])
  | cons argument rest inductionHypothesis =>
      cases argument with
      | positional expr =>
          refine relation.expression.bind (levels.evaluate expr) fun value => ?_
          exact relation.expression.bind inductionHypothesis fun others =>
            relation.expression.pure (value :: others.1, others.2)
      | keyword name expr =>
          refine relation.expression.bind (levels.evaluate expr) fun value => ?_
          exact relation.expression.bind inductionHypothesis fun others =>
            relation.expression.pure (others.1, (name, value) :: others.2)

theorem evaluateEntries (entries : Dict Value) (exprs : List (Expr × Expr)) :
    relation.expression.Relates (Run.evaluateEntries below entries exprs)
      (Run.evaluateEntries otherBelow entries exprs) := by
  induction exprs generalizing entries with
  | nil => exact relation.expression.pure entries
  | cons entry rest inductionHypothesis =>
      refine relation.expression.bind (levels.evaluate entry.1) fun key => ?_
      refine relation.expression.bind (relation.expression.onHeap (.keyOf _)) fun key => ?_
      refine relation.expression.bind (levels.evaluate entry.2) fun value => ?_
      exact inductionHypothesis (entries.insert key value)

theorem evaluateChain (depth : Nat) (left : Value) (links : List (Comparison × Expr)) :
    relation.expression.Relates (Run.evaluateChain below depth left links)
      (Run.evaluateChain otherBelow depth left links) := by
  induction links generalizing left with
  | nil => exact relation.expression.pure true
  | cons link rest inductionHypothesis =>
      refine relation.expression.bind (levels.evaluate link.2) fun right => ?_
      refine relation.expression.bind (relation.expression.onHeap (.comparison _ _ _ _)) fun related => ?_
      cases related with
      | false => exact relation.expression.pure false
      | true => exact inductionHypothesis right

theorem allHold (tests : List Expr) :
    relation.expression.Relates (Run.allHold below tests) (Run.allHold otherBelow tests) := by
  induction tests with
  | nil => exact relation.expression.pure true
  | cons test rest inductionHypothesis =>
      refine relation.expression.bind (levels.holds test) fun truth => ?_
      cases truth with
      | false => exact relation.expression.pure false
      | true => exact inductionHypothesis

omit levels in
mutual

/-- Targets correspond in any relation above that of expressions in which names are bound alike. -/
theorem assignBy (levels : relation.Levels below otherBelow) (kind : Congruence σ τ)
    (weaken : ∀ {α : Type} {first : Effect σ α} {second : Effect τ α},
      relation.expression.Relates first second → kind.Relates first second)
    {bind : String → Value → Effect σ Unit} {otherBind : String → Value → Effect τ Unit}
    (binds : ∀ name value, kind.Relates (bind name value) (otherBind name value))
    (target : Target) (value : Value) :
    kind.Relates (Run.assignBy below bind target value)
      (Run.assignBy otherBelow otherBind target value) := by
  cases target with
  | name name => exact binds name value
  | index object index =>
      refine kind.bind (weaken (levels.evaluate object)) fun object => ?_
      refine kind.bind (weaken (levels.evaluate index)) fun index => ?_
      exact kind.onHeap (.setItem _ _ _)
  | unpack targets =>
      refine kind.bind (kind.onHeap (.unpacked _ _)) fun values => ?_
      exact assignAllBy levels kind weaken binds targets values

theorem assignAllBy (levels : relation.Levels below otherBelow) (kind : Congruence σ τ)
    (weaken : ∀ {α : Type} {first : Effect σ α} {second : Effect τ α},
      relation.expression.Relates first second → kind.Relates first second)
    {bind : String → Value → Effect σ Unit} {otherBind : String → Value → Effect τ Unit}
    (binds : ∀ name value, kind.Relates (bind name value) (otherBind name value))
    (targets : List Target) (values : List Value) :
    kind.Relates (Run.assignAllBy below bind targets values)
      (Run.assignAllBy otherBelow otherBind targets values) := by
  cases targets with
  | nil => exact kind.pure ()
  | cons target targets =>
      cases values with
      | nil => exact kind.pure ()
      | cons value values =>
          refine kind.bind (assignBy levels kind weaken binds target value) fun _ => ?_
          exact assignAllBy levels kind weaken binds targets values

end

theorem collectWalk (target : Target) (conditions : List Expr)
    {collect : Array Value → Effect σ (Array Value)}
    {otherCollect : Array Value → Effect τ (Array Value)}
    (collects : ∀ values,
      relation.comprehension.Relates (collect values) (otherCollect values))
    (fuel : Nat) (walk : Walk) (values : Array Value) :
    relation.comprehension.Relates
      (Run.collectWalk below target conditions collect fuel walk values)
      (Run.collectWalk otherBelow target conditions otherCollect fuel walk values) := by
  induction fuel generalizing walk values with
  | zero => exact relation.comprehension.exhausted
  | succ fuel inductionHypothesis =>
      refine relation.comprehension.bind (relation.comprehension.onHeap (.next _)) fun fetched => ?_
      cases fetched with
      | none => exact relation.comprehension.pure values
      | some fetched =>
          obtain ⟨item, walk⟩ := fetched
          have bound := levels.assignBy relation.comprehension
            relation.comprehension_of_expression relation.bindVariable target item
          refine relation.comprehension.bind bound fun _ => ?_
          have tested := relation.comprehension_of_expression (levels.allHold conditions)
          refine relation.comprehension.bind tested fun wanted => ?_
          cases wanted with
          | false => exact inductionHypothesis walk values
          | true =>
              exact relation.comprehension.bind (collects values) fun values =>
                inductionHypothesis walk values

theorem collectClauses (fuel : Nat) (element : Expr) (clauses : List Clause)
    (values : Array Value) :
    relation.comprehension.Relates (Run.collectClauses below fuel element clauses values)
      (Run.collectClauses otherBelow fuel element clauses values) := by
  induction clauses generalizing values with
  | nil =>
      have made := relation.comprehension_of_expression (levels.evaluate element)
      exact relation.comprehension.bind made fun value =>
        relation.comprehension.pure (values.push value)
  | cons clause rest inductionHypothesis =>
      obtain ⟨target, iterable, conditions⟩ := clause
      have made := relation.comprehension_of_expression (levels.evaluate iterable)
      refine relation.comprehension.bind made fun iterable => ?_
      refine relation.comprehension.bind (relation.comprehension.onHeap (.walk _)) fun walk => ?_
      exact levels.collectWalk target conditions inductionHypothesis fuel walk values

theorem evaluateComprehension (fuel : Nat) (element : Expr) (clauses : List Clause) :
    relation.expression.Relates (Run.evaluateComprehension below fuel element clauses)
      (Run.evaluateComprehension otherBelow fuel element clauses) := by
  rw [evaluateComprehension_eq, evaluateComprehension_eq]
  have collected := relation.inScope (levels.collectClauses fuel element clauses #[])
  exact relation.expression.bind collected fun values => relation.expression.onHeap (.newList _)

theorem scored (key : Option Value) (item : Value) :
    relation.expression.Relates (Run.scored below.call key item)
      (Run.scored otherBelow.call key item) := by
  cases key with
  | none => exact relation.expression.pure _
  | some key =>
      exact relation.expression.bind (levels.call key [item] []) fun score =>
        relation.expression.pure (Scored.mk score item)

theorem scoredAll (key : Option Value) (items : List Value) :
    relation.expression.Relates (Run.scoredAll below.call key items)
      (Run.scoredAll otherBelow.call key items) := by
  induction items with
  | nil => exact relation.expression.pure []
  | cons item rest inductionHypothesis =>
      refine relation.expression.bind (levels.scored key item) fun entry => ?_
      exact relation.expression.bind inductionHypothesis fun entries =>
        relation.expression.pure (entry :: entries)

theorem bestOf (depth : Nat) (largest : Bool) (key : Option Value) (best : Option Scored)
    (items : List Value) :
    relation.expression.Relates (Run.bestOf below.call depth largest key best items)
      (Run.bestOf otherBelow.call depth largest key best items) := by
  induction items generalizing best with
  | nil => cases best <;> exact relation.expression.pure _
  | cons item rest inductionHypothesis =>
      cases best with
      | none =>
          exact relation.expression.bind (levels.scored key item) fun entry =>
            inductionHypothesis (some entry)
      | some best =>
          refine relation.expression.bind (levels.scored key item) fun entry => ?_
          cases largest with
          | false =>
              exact relation.expression.bind (relation.expression.onHeap (.ask _)) fun better =>
                inductionHypothesis _
          | true =>
              exact relation.expression.bind (relation.expression.onHeap (.ask _)) fun better =>
                inductionHypothesis _

theorem bestItem (depth : Nat) (largest : Bool) (key default : Option Value)
    (error : RuntimeError) (items : List Value) :
    relation.expression.Relates
      (do match ← Run.bestOf below.call depth largest key none items, default with
          | some best, _ => return best.item
          | none, some default => return default
          | none, none => throw error)
      (do match ← Run.bestOf otherBelow.call depth largest key none items, default with
          | some best, _ => return best.item
          | none, some default => return default
          | none, none => throw error) := by
  refine relation.expression.bind (levels.bestOf depth largest key none items) fun best => ?_
  cases best with
  | some best => exact relation.expression.pure best.item
  | none =>
      cases default with
      | some default => exact relation.expression.pure default
      | none => exact relation.expression.raise error

theorem extreme (depth : Nat) (largest : Bool) (arguments : List Value) (keywords : Keywords) :
    relation.expression.Relates (Run.extreme below.call depth largest arguments keywords)
      (Run.extreme otherBelow.call depth largest arguments keywords) := by
  unfold Run.extreme
  refine relation.expression.bind (relation.expression.onHeap (.noKeywords _ _)) fun _ => ?_
  refine relation.expression.bind (relation.expression.onHeap (.argumentCount _ _ _ _)) fun _ => ?_
  have chosen := levels.bestItem depth largest
  match arguments with
  | [] => exact relation.expression.bind (relation.expression.pure _) (chosen _ _ _)
  | [value] => exact relation.expression.bind (relation.expression.onHeap (.itemsOf _)) (chosen _ _ _)
  | _ :: _ :: _ => exact relation.expression.bind (relation.expression.pure _) (chosen _ _ _)

theorem sortedItems (depth : Nat) (key reverse : Option Value) (items : List Value) :
    relation.expression.Relates (Run.sortedItems below.call depth key reverse items)
      (Run.sortedItems otherBelow.call depth key reverse items) := by
  have sorted : ∀ descending : Bool, relation.expression.Relates
      (do
        let entries ← Run.scoredAll below.call key items
        let entries ← Effect.onHeap
          (Action.ask fun heap => Scored.sort heap depth descending entries)
        return entries.map Scored.item)
      (do
        let entries ← Run.scoredAll otherBelow.call key items
        let entries ← Effect.onHeap
          (Action.ask fun heap => Scored.sort heap depth descending entries)
        return entries.map Scored.item) := by
    intro descending
    refine relation.expression.bind (levels.scoredAll key items) fun entries => ?_
    exact relation.expression.bind (relation.expression.onHeap (.ask _)) fun entries =>
      relation.expression.pure (entries.map Scored.item)
  cases reverse with
  | none => exact relation.expression.bind (relation.expression.pure false) sorted
  | some reverse => exact relation.expression.bind (relation.expression.view reverse.truthy) sorted

theorem sortedList (depth : Nat) (arguments : List Value) (keywords : Keywords) :
    relation.expression.Relates (Run.sortedList below.call depth arguments keywords)
      (Run.sortedList otherBelow.call depth arguments keywords) := by
  refine relation.expression.bind (relation.expression.onHeap (.plainArguments _ _ _ _ _)) fun _ => ?_
  refine relation.expression.bind (relation.expression.onHeap (.itemsOf _)) fun items => ?_
  refine relation.expression.bind (levels.sortedItems depth _ _ items) fun items => ?_
  exact relation.expression.onHeap (.newList _)

theorem sortList (depth ref : Nat) (arguments : List Value) (keywords : Keywords) :
    relation.expression.Relates (Run.sortList below.call depth ref arguments keywords)
      (Run.sortList otherBelow.call depth ref arguments keywords) := by
  refine relation.expression.bind (relation.expression.onHeap (.noKeywords _ _)) fun _ => ?_
  refine relation.expression.bind (relation.expression.onHeap (.argumentCount _ _ _ _)) fun _ => ?_
  refine relation.expression.bind (relation.expression.view _) fun items => ?_
  refine relation.expression.bind (levels.sortedItems depth _ _ items) fun items => ?_
  refine relation.expression.bind (relation.expression.onHeap (.modifyList _ _)) fun _ => ?_
  exact relation.expression.pure Value.none

omit levels in
theorem printed (relation : Correspondence environment other) (arguments : List Value)
    (keywords : Keywords) :
    relation.expression.Relates (Run.printed arguments keywords) (Run.printed arguments keywords) := by
  refine relation.expression.bind (relation.expression.onHeap (.optionalText _ _ _)) fun separator => ?_
  refine relation.expression.bind (relation.expression.onHeap (.optionalText _ _ _)) fun ending => ?_
  refine relation.expression.bind (relation.expression.onHeap (.noKeywords _ _)) fun _ => ?_
  refine relation.expression.bind (relation.expression.view _) fun texts => ?_
  refine relation.expression.bind (relation.write _) fun _ => ?_
  exact relation.expression.pure Value.none

theorem applyBuiltin (depth : Nat) (builtin : Builtin) (arguments : List Value)
    (keywords : Keywords) :
    relation.expression.Relates (Run.applyBuiltin below.call depth builtin arguments keywords)
      (Run.applyBuiltin otherBelow.call depth builtin arguments keywords) := by
  cases builtin with
  | print => exact printed relation arguments keywords
  | min => exact levels.extreme depth false arguments keywords
  | max => exact levels.extreme depth true arguments keywords
  | sorted => exact levels.sortedList depth arguments keywords
  | _ => exact relation.expression.onHeap (.applyPlain _ _ _)

theorem applyMethod (depth : Nat) (object : Value) (method : String) (arguments : List Value)
    (keywords : Keywords) :
    relation.expression.Relates (Run.applyMethod below.call depth object method arguments keywords)
      (Run.applyMethod otherBelow.call depth object method arguments keywords) := by
  cases object with
  | list ref =>
      unfold Run.applyMethod
      by_cases sorts : method == "sort"
      · simp only [sorts, if_true]
        exact levels.sortList depth ref arguments keywords
      · simp only [sorts]
        exact relation.expression.onHeap (.listMethod _ _ _ _ _)
  | dict ref => exact relation.expression.onHeap (.dictMethod _ _ _ _)
  | str content => exact relation.expression.onHeap (.strMethod _ _ _ _)
  | _ => exact relation.expression.onHeap (.noAttribute _ _)

theorem evaluateForm (fuel : Nat) (expr : Expr) :
    relation.expression.Relates (Run.evaluate below fuel expr)
      (Run.evaluate otherBelow fuel expr) := by
  match expr with
  | .none => exact relation.expression.pure _
  | .bool value => exact relation.expression.pure _
  | .int value => exact relation.expression.pure _
  | .float value => exact relation.expression.pure _
  | .str content => exact relation.expression.pure _
  | .name name => exact relation.load name
  | .list items =>
      exact relation.expression.bind (levels.evaluateAll items) fun _ =>
        relation.expression.onHeap (.newList _)
  | .tuple items =>
      exact relation.expression.bind (levels.evaluateAll items) fun _ =>
        relation.expression.onHeap (.newTuple _)
  | .dict entries =>
      exact relation.expression.bind (levels.evaluateEntries .empty entries) fun _ =>
        relation.expression.onHeap (.newDict _)
  | .comprehension element clauses => exact levels.evaluateComprehension fuel element clauses
  | .unary op operand =>
      exact relation.expression.bind (levels.evaluate operand) fun _ =>
        relation.expression.onHeap (.unary _ _)
  | .binary op left right =>
      refine relation.expression.bind (levels.evaluate left) fun left => ?_
      exact relation.expression.bind (levels.evaluate right) fun _ => relation.expression.onHeap (.binary _ _ _)
  | .compare left links =>
      refine relation.expression.bind (levels.evaluate left) fun left => ?_
      exact relation.expression.bind (levels.evaluateChain fuel left links) fun holds =>
        relation.expression.pure (Value.bool holds)
  | .logic op left right =>
      refine relation.expression.bind (levels.evaluate left) fun left => ?_
      refine relation.expression.bind (relation.expression.view left.truthy) fun isTrue => ?_
      cases op <;> cases isTrue
      · exact relation.expression.pure left
      · exact levels.evaluate right
      · exact levels.evaluate right
      · exact relation.expression.pure left
  | .conditional test body orelse =>
      refine relation.expression.bind (levels.holds test) fun truth => ?_
      cases truth with
      | false => exact levels.evaluate orelse
      | true => exact levels.evaluate body
  | .call function arguments =>
      refine relation.expression.bind (levels.evaluate function) fun function => ?_
      exact relation.expression.bind (levels.evaluateArguments arguments) fun given =>
        levels.call function given.1 given.2
  | .method object name arguments =>
      refine relation.expression.bind (levels.evaluate object) fun object => ?_
      exact relation.expression.bind (levels.evaluateArguments arguments) fun given =>
        levels.applyMethod fuel object name given.1 given.2
  | .attribute object name =>
      exact relation.expression.bind (levels.evaluate object) fun _ =>
        relation.expression.onHeap (.noAttribute _ _)
  | .index object index =>
      refine relation.expression.bind (levels.evaluate object) fun object => ?_
      exact relation.expression.bind (levels.evaluate index) fun _ => relation.expression.onHeap (.item _ _)
  | .slice object lower upper step =>
      refine relation.expression.bind (levels.evaluate object) fun object => ?_
      refine relation.expression.bind (levels.evaluateOption lower) fun lower => ?_
      refine relation.expression.bind (levels.evaluateOption upper) fun upper => ?_
      exact relation.expression.bind (levels.evaluateOption step) fun _ =>
        relation.expression.onHeap (.slice _ _ _ _)

end Stepwise.Run.Correspondence.Levels
