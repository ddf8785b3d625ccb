import Stepwise.Proofs.Twins.Heap

/-!
Steps on the heap that do not depend on the homes of functions.

A tame action does the same whatever the home of the functions is, keeps everything that is stored
within a bound, makes no function, and fails only with errors that a script can cause.
-/

namespace Stepwise.Run

/-- Errors that scripts cause: not faults of the interpreter, and of a class with a name. -/
def RuntimeError.Genuine : RuntimeError → Prop
  | .internal _ => False
  | .raised className _ => className ≠ ""
  | _ => True

def Fine {α : Type} (expected : α → Prop) : Except RuntimeError α → Prop
  | .ok value => expected value
  | .error error => error.Genuine

theorem Fine.weaken {α : Type} {expected wanted : α → Prop} {result : Except RuntimeError α}
    (fine : Fine expected result) (implies : ∀ value, expected value → wanted value) :
    Fine wanted result := by
  cases result with
  | ok value => exact implies value fine
  | error error => exact fine

namespace Query

variable {α β : Type}

/-- Whenever the question is answered, the answer is as expected or an error that scripts cause. -/
def Yields (query : Query α) (expected : α → Prop) : Prop :=
  ∀ result, query.run = some result → Fine expected result

variable {query : Query α} {expected : α → Prop}

theorem Yields.pure {value : α} (holds : expected value) :
    Yields (Pure.pure value) expected := by
  intro result answered
  cases answered
  exact holds

theorem Yields.throw {error : RuntimeError} (genuine : error.Genuine) :
    Yields (MonadExcept.throw error) expected := by
  intro result answered
  cases answered
  exact genuine

theorem Yields.bind {next : α → Query β} {wanted : β → Prop} (first : Yields query expected)
    (rest : ∀ value, expected value → Yields (next value) wanted) :
    Yields (query >>= next) wanted := by
  intro result answered
  rw [ExceptT.run_bind] at answered
  cases began : query.run with
  | none => rw [began] at answered; cases answered
  | some middle =>
      have fine := first middle began
      rw [began] at answered
      cases middle with
      | ok value => exact rest value fine result answered
      | error error =>
          cases answered
          exact fine

theorem Yields.ofAnswer (answer : Option α) : Yields (Query.ofAnswer answer) fun _ => True := by
  intro result answered
  obtain ⟨value, -, rfl⟩ := Option.map_eq_some_iff.mp answered
  trivial

theorem equal_yields (heap : Heap) (depth : Nat) (a b : Value) :
    Yields (equal heap depth a b) fun _ => True := .ofAnswer _

theorem equalBeside_yields (heap : Heap) (held depth : Nat) (a b : Value) :
    Yields (equalBeside heap held depth a b) fun _ => True := .ofAnswer _

theorem order_yields (heap : Heap) (depth : Nat) (op : String) (a b : Value) :
    Yields (order heap depth op a b) fun _ => True := by
  refine (Yields.ofAnswer _).bind fun answer _ => ?_
  cases answer with
  | ok order => exact .pure trivial
  | error values => exact .throw trivial

theorem less_yields (heap : Heap) (depth : Nat) (a b : Value) :
    Yields (less heap depth a b) fun _ => True :=
  (order_yields heap depth "<" a b).bind fun _ _ => .pure trivial

theorem equal_rehomed (home : Nat) (heap : Heap) (depth : Nat) (a b : Value) :
    equal (heap.rehomed home) depth a b = equal heap depth a b := by
  simp only [equal, Stepwise.equal_rehomed]

theorem equalBeside_rehomed (home : Nat) (heap : Heap) (held depth : Nat) (a b : Value) :
    equalBeside (heap.rehomed home) held depth a b = equalBeside heap held depth a b := by
  simp only [equalBeside, Stepwise.equalBeside_rehomed]

theorem order_rehomed (home : Nat) (heap : Heap) (depth : Nat) (op : String) (a b : Value) :
    order (heap.rehomed home) depth op a b = order heap depth op a b := by
  simp only [order, Stepwise.order_rehomed, typeName_rehomed]

theorem less_rehomed (home : Nat) (heap : Heap) (depth : Nat) (a b : Value) :
    less (heap.rehomed home) depth a b = less heap depth a b := by
  simp only [less, order_rehomed]

end Query

namespace Action

variable {α β : Type}

theorem bind_apply (action : Action α) (next : α → Action β) (heap : Heap) :
    (action >>= next) heap =
      match action heap with
      | none => none
      | some (.ok value, after) => next value after
      | some (.error error, after) => some (.error error, after) := by
  show (StateT.bind action _ : StateT Heap Option (Except RuntimeError β)) heap = _
  show Option.bind (action heap) _ = _
  cases action heap with
  | none => rfl
  | some ended =>
      obtain ⟨result, after⟩ := ended
      cases result <;> rfl

/-- An action that does the same in every namespace and keeps what is stored within a bound. -/
structure Tame (functions : Nat) (action : Action α) (expected : α → Prop) : Prop where
  rehomed : ∀ home heap, heap.Holds functions →
    action (heap.rehomed home) = (action heap).map fun ended => (ended.1, ended.2.rehomed home)
  keeps : ∀ heap result after, heap.Holds functions → action heap = some (result, after) →
    Fine expected result ∧ heap.Keeps functions after

namespace Tame

variable {functions : Nat} {action : Action α} {expected : α → Prop}

theorem pure {value : α} (holds : expected value) : Tame functions (Pure.pure value) expected := by
  refine ⟨fun _ _ _ => rfl, fun heap result after stored ended => ?_⟩
  cases ended
  exact ⟨holds, .refl stored⟩

theorem given (value : α) : Tame functions (Pure.pure value) fun _ => True := pure trivial

theorem throw {error : RuntimeError} (genuine : error.Genuine) :
    Tame functions (MonadExcept.throw error) expected := by
  refine ⟨fun _ _ _ => rfl, fun heap result after stored ended => ?_⟩
  cases ended
  exact ⟨genuine, .refl stored⟩

theorem broken : Tame functions (Action.broken : Action α) expected :=
  ⟨fun _ _ _ => rfl, fun _ _ _ _ ended => nomatch ended⟩

theorem bind {next : α → Action β} {wanted : β → Prop} (first : Tame functions action expected)
    (rest : ∀ value, expected value → Tame functions (next value) wanted) :
    Tame functions (action >>= next) wanted := by
  refine ⟨fun home heap stored => ?_, fun heap result after stored ended => ?_⟩
  · rw [bind_apply, bind_apply, first.rehomed home heap stored]
    cases began : action heap with
    | none => rfl
    | some middle =>
        obtain ⟨result, middle⟩ := middle
        obtain ⟨fine, kept⟩ := first.keeps heap result middle stored began
        cases result with
        | ok value => exact (rest value fine).rehomed home middle kept.holds
        | error error => rfl
  · rw [bind_apply] at ended
    cases began : action heap with
    | none => rw [began] at ended; cases ended
    | some middle =>
        obtain ⟨middleResult, middle⟩ := middle
        obtain ⟨fine, kept⟩ := first.keeps heap middleResult middle stored began
        rw [began] at ended
        cases middleResult with
        | ok value =>
            obtain ⟨fineToo, keptToo⟩ := (rest value fine).keeps middle result after kept.holds ended
            exact ⟨fineToo, kept.trans keptToo⟩
        | error error =>
            cases ended
            exact ⟨fine, kept⟩

theorem sequence {next : α → Action β} {wanted : β → Prop} (first : Tame functions action expected)
    (rest : ∀ value, Tame functions (next value) wanted) :
    Tame functions (action >>= next) wanted :=
  first.bind fun value _ => rest value

theorem map {wanted : β → Prop} (change : α → β) (tame : Tame functions action expected)
    (implies : ∀ value, expected value → wanted (change value)) :
    Tame functions (change <$> action) wanted := by
  rw [map_eq_pure_bind]
  exact tame.bind fun value holds => pure (implies value holds)

theorem stop {next : α → Action β} {wanted : β → Prop} {error : RuntimeError}
    (genuine : error.Genuine) : Tame functions (MonadExcept.throw error >>= next) wanted := by
  have silent : Tame functions (MonadExcept.throw error) fun _ : α => False := throw genuine
  exact silent.bind fun _ impossible => impossible.elim

/-- A check that is only made under a condition. -/
theorem checked {condition : Prop} [Decidable condition] {check : Action Unit}
    {next : Unit → Action β} {wanted : β → Prop} (checks : Tame functions check fun _ => True)
    (rest : Tame functions (next ()) wanted) :
    Tame functions (if condition then check >>= next else next ()) wanted := by
  by_cases holds : condition
  · rw [if_pos holds]
    exact checks.sequence fun _ => rest
  · rw [if_neg holds]
    exact rest

theorem barring {condition : Prop} [Decidable condition] {error : RuntimeError}
    {next : Unit → Action β} {wanted : β → Prop} (genuine : error.Genuine)
    (rest : Tame functions (next ()) wanted) :
    Tame functions (if condition then MonadExcept.throw error >>= next else next ()) wanted :=
  checked (throw genuine) rest

theorem mapM {read : β → Action α} {items : List β}
    (each : ∀ item ∈ items, Tame functions (read item) expected) :
    Tame functions (items.mapM read) fun values => ∀ value ∈ values, expected value := by
  induction items with
  | nil => exact pure nofun
  | cons item rest inductionHypothesis =>
      rw [List.mapM_cons]
      have others := inductionHypothesis fun later member => each later (List.mem_cons_of_mem _ member)
      refine (each item List.mem_cons_self).bind fun value holds => ?_
      exact others.bind fun values all => pure (List.forall_mem_cons.mpr ⟨holds, all⟩)

theorem foldlM {step : α → β → Action α} {items : List β} {start : α} (begins : expected start)
    (each : ∀ item ∈ items, ∀ value, expected value → Tame functions (step value item) expected) :
    Tame functions (items.foldlM step start) expected := by
  induction items generalizing start with
  | nil => exact pure begins
  | cons item rest inductionHypothesis =>
      rw [List.foldlM_cons]
      refine (each item List.mem_cons_self start begins).bind fun value holds => ?_
      exact inductionHypothesis holds fun later member => each later (List.mem_cons_of_mem _ member)

theorem observe {look : Heap → α} (same : ∀ home heap, look (heap.rehomed home) = look heap)
    (holds : ∀ heap : Heap, heap.Holds functions → expected (look heap)) :
    Tame functions (Action.observe look) expected := by
  refine ⟨fun home heap _ => ?_, fun heap result after stored ended => ?_⟩
  · simp only [Action.observe, same, Option.map_some]
  · cases ended
    exact ⟨holds heap stored, .refl stored⟩

theorem glance {look : Heap → α} (same : ∀ home heap, look (heap.rehomed home) = look heap) :
    Tame functions (Action.observe look) fun _ => True :=
  observe same fun _ _ => trivial

theorem ask {query : Heap → Query α} (same : ∀ home heap, query (heap.rehomed home) = query heap)
    (yields : ∀ heap : Heap, heap.Holds functions → (query heap).Yields expected) :
    Tame functions (Action.ask query) expected := by
  refine ⟨fun home heap _ => ?_, fun heap result after stored ended => ?_⟩
  · simp only [Action.ask, same, Option.map_map]
    rfl
  · obtain ⟨answer, answered, same⟩ := Option.map_eq_some_iff.mp ended
    cases same
    exact ⟨yields heap stored _ answered, .refl stored⟩

theorem change {step : Heap → α × Heap}
    (same : ∀ home heap, step (heap.rehomed home) = ((step heap).1, (step heap).2.rehomed home))
    (kept : ∀ heap, heap.Holds functions →
      expected (step heap).1 ∧ heap.Keeps functions (step heap).2) :
    Tame functions (Action.change step) expected := by
  refine ⟨fun home heap _ => ?_, fun heap result after stored ended => ?_⟩
  · simp only [Action.change, same, Option.map_some]
  · cases ended
    exact kept heap stored

theorem update {step : Heap → Heap}
    (same : ∀ home heap, step (heap.rehomed home) = (step heap).rehomed home)
    (kept : ∀ heap : Heap, heap.Holds functions → heap.Keeps functions (step heap)) :
    Tame functions (Action.update step) fun _ => True := by
  refine ⟨fun home heap _ => ?_, fun heap result after stored ended => ?_⟩
  · simp only [Action.update, same, Option.map_some]
  · cases ended
    exact ⟨trivial, kept heap stored⟩

theorem typeName (value : Value) :
    Tame functions (Action.observe value.typeName) fun _ => True :=
  glance fun home heap => typeName_rehomed home heap value

theorem typeError (value : Value) (problem : String → TypeProblem) :
    Tame functions (Action.typeError value problem) expected :=
  (typeName value).sequence fun _ => throw trivial

theorem newList {items : List Value} (within : AllWithin functions items) :
    Tame functions (Action.newList items) fun value => value.Within functions :=
  change (fun _ _ => rfl) fun _ holds => ⟨trivial, .newList holds within⟩

theorem newTuple {items : List Value} (within : AllWithin functions items) :
    Tame functions (Action.newTuple items) fun value => value.Within functions :=
  change (fun _ _ => rfl) fun _ holds => 
    ⟨Value.within_tuple.mpr within, .retag holds _⟩

theorem newDict {entries : Dict Value} (within : entries.Within functions) :
    Tame functions (Action.newDict entries) fun value => value.Within functions :=
  change (fun _ _ => rfl) fun _ holds => ⟨trivial, .newDict holds within⟩

theorem newIterator (kind : IteratorKind) {items : List Value} (within : AllWithin functions items) :
    Tame functions (Action.newIterator kind items) fun value => value.Within functions :=
  change (fun _ _ => rfl) fun _ holds => ⟨trivial, .newIterator holds within⟩

theorem modifyList (ref : Nat) {change : Array Value → Array Value}
    (keeps : ∀ items, AllWithin functions items.toList → AllWithin functions (change items).toList) :
    Tame functions (Action.update fun heap => heap.modifyList ref change) fun _ => True :=
  update (fun _ _ => rfl) fun _ holds => ⟨rfl, holds.modifyList ref keeps, .modifyList _ ref change⟩

theorem modifyDict (ref : Nat) {change : Dict Value → Dict Value}
    (keeps : ∀ dict : Dict Value, dict.Within functions → (change dict).Within functions) :
    Tame functions (Action.update fun heap => heap.modifyDict ref change) fun _ => True :=
  update (fun _ _ => rfl) fun _ holds => ⟨rfl, holds.modifyDict ref keeps, .modifyDict _ ref change⟩

theorem list (ref : Nat) : Tame functions (Action.observe fun heap => heap.list ref)
    fun items => AllWithin functions items.toList :=
  observe (fun _ _ => rfl) fun _ holds => holds.list ref

theorem dict (ref : Nat) : Tame functions (Action.observe fun heap => heap.dict ref)
    fun dict => dict.Within functions :=
  observe (fun _ _ => rfl) fun _ holds => holds.dict ref

theorem truthy (value : Value) : Tame functions (Action.observe value.truthy) fun _ => True :=
  glance fun home heap => truthy_rehomed home heap value

theorem render (value : Value) : Tame functions (Action.observe value.render) fun _ => True :=
  glance fun home heap => render_rehomed home heap value

theorem display (value : Value) : Tame functions (Action.observe value.display) fun _ => True :=
  glance fun home heap => display_rehomed home heap value

theorem keyOf (value : Value) : Tame functions (Action.keyOf value) fun _ => True := by
  unfold Action.keyOf
  split
  · exact pure trivial
  · exact typeError _ _

theorem ofOption {step : Heap → Option (α × Heap)} (decide : α → Except RuntimeError β)
    {whole refuse : Action β} {wanted : β → Prop}
    (answers : ∀ heap taken after, step heap = some (taken, after) →
      whole heap = some (decide taken, after))
    (refuses : ∀ heap, step heap = none → whole heap = refuse heap)
    (same : ∀ home heap, step (heap.rehomed home) =
      (step heap).map fun taken => (taken.1, taken.2.rehomed home))
    (kept : ∀ heap taken after, heap.Holds functions → step heap = some (taken, after) →
      expected taken ∧ heap.Keeps functions after)
    (fine : ∀ taken, expected taken → Fine wanted (decide taken))
    (refused : Tame functions refuse wanted) : Tame functions whole wanted := by
  refine ⟨fun home heap stored => ?_, fun heap result after stored ended => ?_⟩
  · have there := same home heap
    cases taken : step heap with
    | none =>
        rw [taken] at there
        rw [refuses _ there, refuses heap taken]
        exact refused.rehomed home heap stored
    | some found =>
        rw [taken] at there
        rw [answers _ _ _ there, answers heap _ _ taken]
        rfl
  · cases taken : step heap with
    | none =>
        rw [refuses heap taken] at ended
        exact refused.keeps heap result after stored ended
    | some found =>
        rw [answers heap _ _ taken] at ended
        cases ended
        obtain ⟨holds, kept⟩ := kept heap _ _ stored taken
        exact ⟨fine _ holds, kept⟩

theorem walk {value : Value} (within : value.Within functions) :
    Tame functions (Action.walk value) fun walk => walk.Within functions :=
  ofOption .ok (fun heap _ _ begun => by simp only [Action.walk, begun])
    (fun heap none => by simp only [Action.walk, none])
    (fun home heap => Value.walk?_rehomed home heap value)
    (fun _ _ _ holds begun => Value.walk?_keeps holds within begun) (fun _ holds => holds)
    (typeError value .notIterable)

theorem ofItems {whole refuse : Action β} {wanted : β → Prop} {value : Value}
    (within : value.Within functions) (decide : List Value → Except RuntimeError β)
    (answers : ∀ heap items after, value.items? heap = some (items, after) →
      whole heap = some (decide items, after))
    (refuses : ∀ heap, value.items? heap = none → whole heap = refuse heap)
    (fine : ∀ items, AllWithin functions items → Fine wanted (decide items))
    (refused : Tame functions refuse wanted) : Tame functions whole wanted :=
  ofOption decide answers refuses (fun home heap => Value.items?_rehomed home heap value)
    (fun _ _ _ holds found => Value.items?_keeps holds within found) fine refused

theorem itemsOf {value : Value} (within : value.Within functions) :
    Tame functions (Action.itemsOf value) fun items => AllWithin functions items :=
  ofItems within .ok (fun heap _ _ found => by simp only [Action.itemsOf, found])
    (fun heap none => by simp only [Action.itemsOf, none]) (fun _ holds => holds)
    (typeError value .notIterable)

theorem next {walk : Walk} (within : walk.Within functions) :
    Tame functions (Action.next walk) fun met => ∀ item rest, met = some (item, rest) →
      item.Within functions ∧ rest.Within functions := by
  refine ⟨fun home heap _ => ?_, fun heap result after stored ended => ?_⟩
  · simp only [Action.next, Walk.next?_rehomed]
    cases walk.next? heap <;> rfl
  · unfold Action.next at ended
    cases met : walk.next? heap with
    | none =>
        simp only [met] at ended
        cases ended
        exact ⟨nofun, .refl stored⟩
    | some found =>
        obtain ⟨item, rest, moved⟩ := found
        simp only [met] at ended
        cases ended
        obtain ⟨bound, left, kept⟩ := Walk.next?_keeps stored within met
        refine ⟨fun _ _ same => ?_, kept⟩
        cases same
        exact ⟨bound, left⟩

theorem meets {test : Value → Action Bool}
    (tests : ∀ item, item.Within functions → Tame functions (test item) fun _ => True) (left : Nat)
    {walk : Walk} (within : walk.Within functions) :
    Tame functions (Action.meets test left walk) fun _ => True := by
  induction left generalizing walk with
  | zero => exact pure trivial
  | succ left inductionHypothesis =>
      refine (next within).bind fun met bounds => ?_
      cases met with
      | none => exact pure trivial
      | some met =>
          obtain ⟨bound, ahead⟩ := bounds met.1 met.2 rfl
          refine (tests met.1 bound).sequence fun found => ?_
          cases found with
          | true => exact pure trivial
          | false => exact inductionHypothesis ahead

theorem equal (depth : Nat) (a b : Value) :
    Tame functions (Action.ask fun heap => Query.equal heap depth a b) fun _ => True :=
  ask (fun home heap => Query.equal_rehomed home heap depth a b)
    fun heap _ => Query.equal_yields heap depth a b

theorem equalBeside (held depth : Nat) (a b : Value) :
    Tame functions (Action.ask fun heap => Query.equalBeside heap held depth a b) fun _ => True :=
  ask (fun home heap => Query.equalBeside_rehomed home heap held depth a b)
    fun heap _ => Query.equalBeside_yields heap held depth a b

theorem order (depth : Nat) (op : String) (a b : Value) :
    Tame functions (Action.ask fun heap => Query.order heap depth op a b) fun _ => True :=
  ask (fun home heap => Query.order_rehomed home heap depth op a b)
    fun heap _ => Query.order_yields heap depth op a b

theorem less (depth : Nat) (a b : Value) :
    Tame functions (Action.ask fun heap => Query.less heap depth a b) fun _ => True :=
  ask (fun home heap => Query.less_rehomed home heap depth a b)
    fun heap _ => Query.less_yields heap depth a b

theorem anyEqual (depth : Nat) (item : Value) (values : List Value) :
    Tame functions (Action.anyEqual depth item values) fun _ => True := by
  induction values with
  | nil => exact pure trivial
  | cons value rest inductionHypothesis =>
      refine (equal depth value item).sequence fun found => ?_
      cases found with
      | true => exact pure trivial
      | false => exact inductionHypothesis

end Tame

end Action

end Stepwise.Run
