import Stepwise.Proofs.Twins.Frames

/-!
Expressions have the same values in twin namespaces if the levels below evaluate alike.
-/

namespace Stepwise.Run.Twins

open Script Effect

variable {σ τ : Type} {twins : Twins σ τ} {below : Level σ} {otherBelow : Level τ}

/-- Two levels that evaluate, execute and call alike.  Only top-level statements make functions. -/
structure Levels (twins : Twins σ τ) (below : Level σ) (otherBelow : Level τ) : Prop where
  evaluate {code : Option Definition} {made : Nat} (expr : Expr) :
    twins.Steady code made (below.evaluate expr) (otherBelow.evaluate expr) (Value.Within made)
  execute {code : Option Definition} {made : Nat} {inLoop : Bool} {block : List Statement} :
    Everywhere (Permitted twins.functions.length twins.reports code) inLoop block →
    twins.Runs (code.isSome = true) code made (below.execute block) (otherBelow.execute block)
      Flow.Within
  call {code : Option Definition} {made : Nat} {function : Value} {arguments : List Value}
    {keywords : Keywords} : function.Within made → AllWithin made arguments →
    KeywordsWithin made keywords →
    twins.Steady code made (below.call function arguments keywords)
      (otherBelow.call function arguments keywords) (Value.Within made)

abbrev OptionWithin (made : Nat) (value : Option Value) : Prop :=
  ∀ found, value = some found → found.Within made

namespace Levels

variable (levels : twins.Levels below otherBelow) {code : Option Definition} {made : Nat}

include levels

theorem holds (test : Expr) :
    twins.Steady code made (Run.holds below test) (Run.holds otherBelow test) fun _ => True :=
  (levels.evaluate test).before fun value _ => .onHeap (.truthy value)

theorem evaluateAll (exprs : List Expr) :
    twins.Steady code made (Run.evaluateAll below exprs) (Run.evaluateAll otherBelow exprs)
      (AllWithin made) := by
  induction exprs with
  | nil => exact .pure nofun
  | cons expr rest inductionHypothesis =>
      refine (levels.evaluate expr).before fun value within => ?_
      exact inductionHypothesis.before fun values all =>
        .pure (List.forall_mem_cons.mpr ⟨within, all⟩)

theorem evaluateOption (expr : Option Expr) :
    twins.Steady code made (Run.evaluateOption below expr) (Run.evaluateOption otherBelow expr)
      (OptionWithin made) := by
  cases expr with
  | none => exact .pure nofun
  | some expr =>
      refine .map some (levels.evaluate expr) fun value within found same => ?_
      cases same
      exact within

theorem evaluateArguments (arguments : List Argument) :
    twins.Steady code made (Run.evaluateArguments below arguments)
      (Run.evaluateArguments otherBelow arguments) fun given =>
        AllWithin made given.1 ∧ KeywordsWithin made given.2 := by
  induction arguments with
  | nil => exact .pure ⟨nofun, nofun⟩
  | cons argument rest inductionHypothesis =>
      cases argument with
      | positional expr =>
          refine (levels.evaluate expr).before fun value within => ?_
          exact inductionHypothesis.before fun others all =>
            .pure ⟨List.forall_mem_cons.mpr ⟨within, all.1⟩, all.2⟩
      | keyword name expr =>
          refine (levels.evaluate expr).before fun value within => ?_
          exact inductionHypothesis.before fun others all =>
            .pure ⟨all.1, List.forall_mem_cons.mpr ⟨within, all.2⟩⟩

theorem evaluateEntries {entries : Dict Value} (within : entries.Within made)
    (exprs : List (Expr × Expr)) :
    twins.Steady code made (Run.evaluateEntries below entries exprs)
      (Run.evaluateEntries otherBelow entries exprs) fun entries => entries.Within made := by
  induction exprs generalizing entries with
  | nil => exact .pure within
  | cons entry rest inductionHypothesis =>
      refine (levels.evaluate entry.1).before fun key _ => ?_
      refine Runs.before (.onHeap (.keyOf key)) fun key _ => ?_
      refine (levels.evaluate entry.2).before fun value bound => ?_
      exact inductionHypothesis (within.insert key bound)

theorem evaluateChain (depth : Nat) (left : Value) (links : List (Comparison × Expr)) :
    twins.Steady code made (Run.evaluateChain below depth left links)
      (Run.evaluateChain otherBelow depth left links) fun _ => True := by
  induction links generalizing left with
  | nil => exact .pure trivial
  | cons link rest inductionHypothesis =>
      refine (levels.evaluate link.2).before fun right _ => ?_
      refine Runs.before (.onHeap (.comparison depth link.1 left right)) fun related _ => ?_
      cases related with
      | false => exact .pure trivial
      | true => exact inductionHypothesis right

theorem allHold (tests : List Expr) :
    twins.Steady code made (Run.allHold below tests) (Run.allHold otherBelow tests) fun _ => True := by
  induction tests with
  | nil => exact .pure trivial
  | cons test rest inductionHypothesis =>
      refine (levels.holds test).before fun truth _ => ?_
      cases truth with
      | false => exact .pure trivial
      | true => exact inductionHypothesis

omit levels in
mutual

theorem assignBy (levels : twins.Levels below otherBelow) {good : String → Prop}
    {bind : String → Value → Effect σ Unit} {otherBind : String → Value → Effect τ Unit}
    (binds : ∀ name value, good name → value.Within made →
      twins.Steady code made (bind name value) (otherBind name value) fun _ => True)
    {target : Target} (all : target.All good) {value : Value} (within : value.Within made) :
    twins.Steady code made (Run.assignBy below bind target value)
      (Run.assignBy otherBelow otherBind target value) fun _ => True := by
  cases target with
  | name name => exact binds name value all within
  | index object index =>
      refine (levels.evaluate object).before fun object _ => ?_
      refine (levels.evaluate index).before fun index _ => ?_
      exact .onHeap (.setItem within)
  | unpack targets =>
      refine Runs.before (.onHeap (.unpacked within targets.length)) fun values bound => ?_
      exact assignAllBy levels binds all bound

theorem assignAllBy (levels : twins.Levels below otherBelow) {good : String → Prop}
    {bind : String → Value → Effect σ Unit} {otherBind : String → Value → Effect τ Unit}
    (binds : ∀ name value, good name → value.Within made →
      twins.Steady code made (bind name value) (otherBind name value) fun _ => True)
    {targets : List Target} (all : AllTargets good targets) {values : List Value}
    (within : AllWithin made values) :
    twins.Steady code made (Run.assignAllBy below bind targets values)
      (Run.assignAllBy otherBelow otherBind targets values) fun _ => True := by
  cases targets with
  | nil => exact .pure trivial
  | cons target targets =>
      cases values with
      | nil => exact .pure trivial
      | cons value values =>
          obtain ⟨first, others⟩ := List.forall_mem_cons.mp within
          refine (assignBy levels binds all.1 first).before fun _ _ => ?_
          exact assignAllBy levels binds all.2 others

end

theorem collectWalk (target : Target) (conditions : List Expr)
    {collect : Array Value → Effect σ (Array Value)}
    {otherCollect : Array Value → Effect τ (Array Value)}
    (collects : ∀ values : Array Value, AllWithin made values.toList →
      twins.Steady code made (collect values) (otherCollect values)
        fun values => AllWithin made values.toList)
    (fuel : Nat) {walk : Walk} (ahead : walk.Within made) {values : Array Value}
    (within : AllWithin made values.toList) :
    twins.Steady code made (Run.collectWalk below target conditions collect fuel walk values)
      (Run.collectWalk otherBelow target conditions otherCollect fuel walk values)
      fun values => AllWithin made values.toList := by
  induction fuel generalizing walk values with
  | zero => exact .exhausted
  | succ fuel inductionHypothesis =>
      refine Runs.before (.onHeap (.next ahead)) fun fetched bounds => ?_
      cases fetched with
      | none => exact .pure within
      | some fetched =>
          obtain ⟨item, walk⟩ := fetched
          obtain ⟨bound, ahead⟩ := bounds item walk rfl
          have anyNames := (target.all_addNames []).mono fun _ _ => trivial
          have binds : ∀ name value, True → Value.Within made value → twins.Steady code made
              (Effect.bindVariable name value) (Effect.bindVariable name value) fun _ => True :=
            fun name _ _ within => bindVariable name within
          refine (levels.assignBy binds anyNames bound).before fun _ _ => ?_
          refine (levels.allHold conditions).before fun wanted _ => ?_
          cases wanted with
          | false => exact inductionHypothesis ahead within
          | true =>
              exact (collects values within).before fun values within =>
                inductionHypothesis ahead within

theorem collectClauses (fuel : Nat) (element : Expr) (clauses : List Clause)
    {values : Array Value} (within : AllWithin made values.toList) :
    twins.Steady code made (Run.collectClauses below fuel element clauses values)
      (Run.collectClauses otherBelow fuel element clauses values)
      fun values => AllWithin made values.toList := by
  induction clauses generalizing values with
  | nil =>
      refine (levels.evaluate element).before fun value bound => .pure ?_
      rw [Array.toList_push]
      exact List.forall_mem_append.mpr ⟨within, List.forall_mem_singleton.mpr bound⟩
  | cons clause rest inductionHypothesis =>
      obtain ⟨target, iterable, conditions⟩ := clause
      refine (levels.evaluate iterable).before fun iterable bound => ?_
      refine Runs.before (.onHeap (.walk bound)) fun walk ahead => ?_
      exact levels.collectWalk target conditions (fun _ => inductionHypothesis) fuel ahead within

theorem evaluateComprehension (fuel : Nat) (element : Expr) (clauses : List Clause) :
    twins.Steady code made (Run.evaluateComprehension below fuel element clauses)
      (Run.evaluateComprehension otherBelow fuel element clauses) (Value.Within made) := by
  rw [evaluateComprehension_eq, evaluateComprehension_eq]
  have none : AllWithin made (#[] : Array Value).toList := nofun
  refine (inScope (levels.collectClauses fuel element clauses none)).before fun values within => ?_
  exact .onHeap (.newList within)

theorem scored {key : Option Value} (keyWithin : OptionWithin made key) {item : Value}
    (within : item.Within made) :
    twins.Steady code made (Run.scored below.call key item) (Run.scored otherBelow.call key item)
      (Scored.Within made) := by
  cases key with
  | none => exact .pure ⟨within, within⟩
  | some key =>
      have itself : AllWithin made [item] := List.forall_mem_singleton.mpr within
      exact (levels.call (keyWithin key rfl) itself (List.forall_mem_nil _)).before
        fun score bound => .pure ⟨bound, within⟩

theorem scoredAll {key : Option Value} (keyWithin : OptionWithin made key) {items : List Value}
    (within : AllWithin made items) :
    twins.Steady code made (Run.scoredAll below.call key items)
      (Run.scoredAll otherBelow.call key items) fun entries =>
        ∀ entry ∈ entries, entry.Within made := by
  induction items with
  | nil => exact .pure nofun
  | cons item rest inductionHypothesis =>
      obtain ⟨first, others⟩ := List.forall_mem_cons.mp within
      refine (levels.scored keyWithin first).before fun entry bound => ?_
      exact (inductionHypothesis others).before fun entries bounds =>
        .pure (List.forall_mem_cons.mpr ⟨bound, bounds⟩)

theorem bestOf (depth : Nat) (largest : Bool) {key : Option Value}
    (keyWithin : OptionWithin made key) {best : Option Scored}
    (bestWithin : ∀ entry, best = some entry → entry.Within made) {items : List Value}
    (within : AllWithin made items) :
    twins.Steady code made (Run.bestOf below.call depth largest key best items)
      (Run.bestOf otherBelow.call depth largest key best items) fun best =>
        ∀ entry, best = some entry → entry.Within made := by
  induction items generalizing best with
  | nil => cases best <;> exact .pure bestWithin
  | cons item rest inductionHypothesis =>
      obtain ⟨first, others⟩ := List.forall_mem_cons.mp within
      have chosen : ∀ entry : Scored, entry.Within made → ∀ found, some entry = some found →
          found.Within made := fun _ bound _ same => Option.some.inj same ▸ bound
      cases best with
      | none =>
          exact (levels.scored keyWithin first).before fun entry bound =>
            inductionHypothesis (chosen entry bound) others
      | some best =>
          refine (levels.scored keyWithin first).before fun entry bound => ?_
          have better : ∀ better : Bool,
              Scored.Within made (if better then entry else best) := by
            intro better
            cases better
            · exact bestWithin best rfl
            · exact bound
          cases largest with
          | false =>
              exact Runs.before (.onHeap (.less depth _ _)) fun wins _ =>
                inductionHypothesis (chosen _ (better wins)) others
          | true =>
              exact Runs.before (.onHeap (.less depth _ _)) fun wins _ =>
                inductionHypothesis (chosen _ (better wins)) others

theorem bestItem (depth : Nat) (largest : Bool) {key default : Option Value}
    (keyWithin : OptionWithin made key) (defaultWithin : OptionWithin made default)
    (name : String) {items : List Value} (within : AllWithin made items) :
    twins.Steady code made
      (do match ← Run.bestOf below.call depth largest key none items, default with
          | some best, _ => return best.item
          | none, some default => return default
          | none, none => throw (.value (.emptyIterable name)))
      (do match ← Run.bestOf otherBelow.call depth largest key none items, default with
          | some best, _ => return best.item
          | none, some default => return default
          | none, none => throw (.value (.emptyIterable name))) (Value.Within made) := by
  have unchosen : ∀ entry : Scored, none = some entry → entry.Within made := nofun
  refine (levels.bestOf depth largest keyWithin unchosen within).before fun best bestWithin => ?_
  cases best with
  | some best => exact .pure (bestWithin best rfl).2
  | none =>
      cases default with
      | some default => exact .pure (defaultWithin default rfl)
      | none => exact .raise trivial

omit levels in
theorem takeKey_within {keywords : Keywords} (within : KeywordsWithin made keywords) :
    OptionWithin made (takeKey keywords).1 ∧ KeywordsWithin made (takeKey keywords).2 := by
  obtain ⟨taken, others⟩ := takeKeyword_within within "key"
  exact ⟨fun found met => taken found (Option.filter_eq_some_iff.mp met).1, others⟩

theorem extreme (depth : Nat) (largest : Bool) {arguments : List Value}
    (within : AllWithin made arguments) {keywords : Keywords}
    (named : KeywordsWithin made keywords) :
    twins.Steady code made (Run.extreme below.call depth largest arguments keywords)
      (Run.extreme otherBelow.call depth largest arguments keywords) (Value.Within made) := by
  obtain ⟨keyWithin, named⟩ := takeKey_within named
  obtain ⟨defaultWithin, named⟩ := takeKeyword_within named "default"
  unfold Run.extreme
  refine Runs.before (.onHeap (.noKeywords _ _)) fun _ _ => ?_
  refine Runs.before (.onHeap (.argumentCount _ _ _ _)) fun _ _ => ?_
  match arguments with
  | [] =>
      exact Runs.before (.pure within) fun items within =>
        levels.bestItem depth largest keyWithin defaultWithin _ within
  | [value] =>
      exact Runs.before (.onHeap (.itemsOf (within value List.mem_cons_self))) fun items within =>
        levels.bestItem depth largest keyWithin defaultWithin _ within
  | _ :: _ :: _ =>
      exact Runs.before (.pure within) fun items within =>
        levels.bestItem depth largest keyWithin defaultWithin _ within

theorem sortedItems (depth : Nat) {key reverse : Option Value} (keyWithin : OptionWithin made key)
    {items : List Value} (within : AllWithin made items) :
    twins.Steady code made (Run.sortedItems below.call depth key reverse items)
      (Run.sortedItems otherBelow.call depth key reverse items) (AllWithin made) := by
  have sorted : ∀ descending : Bool, True → twins.Steady code made
      (do
        let entries ← Run.scoredAll below.call key items
        let entries ← Effect.onHeap
          (Action.ask fun heap => Scored.sort heap depth descending entries)
        return entries.map Scored.item)
      (do
        let entries ← Run.scoredAll otherBelow.call key items
        let entries ← Effect.onHeap
          (Action.ask fun heap => Scored.sort heap depth descending entries)
        return entries.map Scored.item) (AllWithin made) := by
    intro descending _
    refine (levels.scoredAll keyWithin within).before fun entries bounds => ?_
    refine Runs.before (.onHeap (.sort depth descending bounds)) fun entries bounds => ?_
    exact .pure (List.forall_mem_map.mpr fun entry member => (bounds entry member).2)
  cases reverse with
  | none => exact Runs.before (.pure trivial) sorted
  | some reverse => exact Runs.before (.onHeap (.truthy reverse)) sorted

theorem sortedList (depth : Nat) {arguments : List Value} (within : AllWithin made arguments)
    {keywords : Keywords} (named : KeywordsWithin made keywords) :
    twins.Steady code made (Run.sortedList below.call depth arguments keywords)
      (Run.sortedList otherBelow.call depth arguments keywords) (Value.Within made) := by
  obtain ⟨keyWithin, -⟩ := takeKey_within named
  refine Runs.before (.onHeap (.plainArguments _ _ _ _ _)) fun _ _ => ?_
  refine Runs.before (.onHeap (.itemsOf within.head)) fun items within => ?_
  refine (levels.sortedItems depth keyWithin within).before fun items within => ?_
  exact .onHeap (.newList within)

theorem sortList (depth ref : Nat) (arguments : List Value) {keywords : Keywords}
    (named : KeywordsWithin made keywords) :
    twins.Steady code made (Run.sortList below.call depth ref arguments keywords)
      (Run.sortList otherBelow.call depth ref arguments keywords) (Value.Within made) := by
  obtain ⟨keyWithin, -⟩ := takeKey_within named
  have listed : Action.Tame made (Action.observe fun heap => (heap.list ref).toList)
      (AllWithin made) := .observe (fun _ _ => rfl) fun _ holds => holds.list ref
  refine Runs.before (.onHeap (.noKeywords _ _)) fun _ _ => ?_
  refine Runs.before (.onHeap (.argumentCount _ _ _ _)) fun _ _ => ?_
  refine Runs.before (.onHeap listed) fun items within => ?_
  refine (levels.sortedItems depth keyWithin within).before fun items within => ?_
  refine Runs.before (.onHeap (.modifyList ref fun _ _ => within)) fun _ _ => ?_
  exact .pure trivial

omit levels in
theorem printed (arguments : List Value) (keywords : Keywords) :
    twins.Steady code made (Run.printed arguments keywords) (Run.printed arguments keywords)
      (Value.Within made) := by
  have shown : Action.Tame made
      (Action.observe fun heap => arguments.map (Value.display heap)) fun _ => True :=
    .glance fun home heap => List.map_congr_left fun value _ => display_rehomed home heap value
  refine Runs.before (.onHeap (.optionalText _ _ _)) fun separator _ => ?_
  refine Runs.before (.onHeap (.optionalText _ _ _)) fun ending _ => ?_
  refine Runs.before (.onHeap (.noKeywords _ _)) fun _ _ => ?_
  refine Runs.before (.onHeap shown) fun texts _ => ?_
  refine Runs.before (write _) fun _ _ => ?_
  exact .pure trivial

theorem applyBuiltin (depth : Nat) (builtin : Builtin) {arguments : List Value}
    (within : AllWithin made arguments) {keywords : Keywords}
    (named : KeywordsWithin made keywords) :
    twins.Steady code made (Run.applyBuiltin below.call depth builtin arguments keywords)
      (Run.applyBuiltin otherBelow.call depth builtin arguments keywords) (Value.Within made) := by
  cases builtin with
  | print => exact printed arguments keywords
  | min => exact levels.extreme depth false within named
  | max => exact levels.extreme depth true within named
  | sorted => exact levels.sortedList depth within named
  | _ => exact .onHeap (.applyPlain _ within named)

theorem applyMethod (depth : Nat) (object : Value) (method : String) {arguments : List Value}
    (within : AllWithin made arguments) {keywords : Keywords}
    (named : KeywordsWithin made keywords) :
    twins.Steady code made (Run.applyMethod below.call depth object method arguments keywords)
      (Run.applyMethod otherBelow.call depth object method arguments keywords)
      (Value.Within made) := by
  cases object with
  | list ref =>
      unfold Run.applyMethod
      by_cases sorts : method == "sort"
      · simp only [sorts, if_true]
        exact levels.sortList depth ref arguments named
      · simp only [sorts]
        exact .onHeap ((Action.Tame.noKeywords _ _).sequence fun _ => .listMethod depth ref method within)
  | dict ref => exact .onHeap (.dictMethod ref method within named)
  | str content =>
      exact .onHeap ((Action.Tame.noKeywords _ _).sequence fun _ => .strMethod content method within)
  | _ => exact .onHeap (.noAttribute _ _)

theorem evaluateForm (fuel : Nat) (expr : Expr) :
    twins.Steady code made (Run.evaluate below fuel expr) (Run.evaluate otherBelow fuel expr)
      (Value.Within made) := by
  match expr with
  | .none => exact .pure trivial
  | .bool value => exact .pure trivial
  | .int value => exact .pure trivial
  | .float value => exact .pure trivial
  | .str content => exact .pure trivial
  | .name name => exact load name
  | .list items =>
      exact (levels.evaluateAll items).before fun _ within => .onHeap (.newList within)
  | .tuple items =>
      exact (levels.evaluateAll items).before fun _ within => .onHeap (.newTuple within)
  | .dict entries =>
      exact (levels.evaluateEntries Dict.Within.empty entries).before fun _ within =>
        .onHeap (.newDict within)
  | .comprehension element clauses => exact levels.evaluateComprehension fuel element clauses
  | .unary op operand =>
      exact (levels.evaluate operand).before fun operand _ => .onHeap (.unary op operand)
  | .binary op left right =>
      refine (levels.evaluate left).before fun left leftWithin => ?_
      exact (levels.evaluate right).before fun right rightWithin =>
        .onHeap (.binary op leftWithin rightWithin)
  | .compare left links =>
      refine (levels.evaluate left).before fun left _ => ?_
      exact (levels.evaluateChain fuel left links).before fun holds _ => .pure trivial
  | .logic op left right =>
      refine (levels.evaluate left).before fun left within => ?_
      refine Runs.before (.onHeap (.truthy left)) fun isTrue _ => ?_
      cases op <;> cases isTrue
      · exact .pure within
      · exact levels.evaluate right
      · exact levels.evaluate right
      · exact .pure within
  | .conditional test body orelse =>
      refine (levels.holds test).before fun truth _ => ?_
      cases truth with
      | false => exact levels.evaluate orelse
      | true => exact levels.evaluate body
  | .call function arguments =>
      refine (levels.evaluate function).before fun function within => ?_
      exact (levels.evaluateArguments arguments).before fun given bounds =>
        levels.call within bounds.1 bounds.2
  | .method object name arguments =>
      refine (levels.evaluate object).before fun object _ => ?_
      exact (levels.evaluateArguments arguments).before fun given bounds =>
        levels.applyMethod fuel object name bounds.1 bounds.2
  | .attribute object name =>
      exact (levels.evaluate object).before fun object _ => .onHeap (.noAttribute object name)
  | .index object index =>
      refine (levels.evaluate object).before fun object within => ?_
      exact (levels.evaluate index).before fun index _ => .onHeap (.item within index)
  | .slice object lower upper step =>
      refine (levels.evaluate object).before fun object within => ?_
      refine (levels.evaluateOption lower).before fun lower _ => ?_
      refine (levels.evaluateOption upper).before fun upper _ => ?_
      exact (levels.evaluateOption step).before fun step _ =>
        .onHeap (.slice within lower upper step)

end Levels

end Stepwise.Run.Twins
