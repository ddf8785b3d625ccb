import Stepwise.Proofs.Effects
import Stepwise.Proofs.Literals.Texts
import Stepwise.Proofs.Ordering.Tables

/-!
The values of literals.

Whatever the state of a run, evaluating the literal of a tree makes containers of its own, changes
nothing else, and gives a value of the tree.
-/

namespace Stepwise

open Script Run

theorem Dict.setIn_of_absent {α : Type} {key : Key} {value : α} {entries : List (Key × α)}
    (absent : ∀ other ∈ entries.map Prod.fst, other.finds key = false) :
    setIn key value entries = entries ++ [(key, value)] := by
  induction entries with
  | nil => rfl
  | cons entry rest inductionHypothesis =>
      simp only [List.map_cons, List.mem_cons, forall_eq_or_imp] at absent
      rw [setIn, absent.1, if_neg Bool.false_ne_true, inductionHypothesis absent.2,
        List.cons_append]

namespace Run

variable {σ α β : Type}

/-- An effect gives a value and leaves behind a heap; nothing else of the machine changes. -/
def Effect.Makes (effect : Effect σ α) (machine : Machine σ) (value : α) (heap : Heap) : Prop :=
  effect machine = some (.ok value, { machine with heap := heap })

namespace Effect.Makes

variable {machine : Machine σ} {effect : Effect σ α} {next : α → Effect σ β} {value : α} {result : β}
  {heap after : Heap}

theorem pure (value : α) : (Pure.pure value : Effect σ α).Makes machine value machine.heap := rfl

theorem bind (first : effect.Makes machine value heap)
    (rest : (next value).Makes { machine with heap := heap } result after) :
    (effect >>= next).Makes machine result after := by
  unfold Makes at first rest ⊢
  rw [bind_apply, first]
  exact rest

theorem andThen {change : α → β} (first : effect.Makes machine value heap) :
    (effect >>= fun value => Pure.pure (change value)).Makes machine (change value) heap :=
  first.bind (pure (change value))

theorem change (step : Heap → α × Heap) :
    (onHeap (Action.change step)).Makes machine (step machine.heap).1 (step machine.heap).2 := by
  unfold Makes
  rw [onHeap_apply]
  rfl

theorem keyOf {value : Value} {key : Key} (same : value.toKey = .ok key) :
    (onHeap (Action.keyOf value)).Makes machine key machine.heap := by
  unfold Makes
  rw [onHeap_apply, Action.keyOf, same]
  rfl

theorem negate {value : Value} {number result : Int64}
    (operand : value.number? = some (.int number)) (negated : result.toInt = -number.toInt) :
    (onHeap (unary .negate value)).Makes machine (.int result) machine.heap := by
  unfold Makes
  rw [onHeap_apply, unary, operand]
  simp only [Run.negated, Number.bounded?_eq_some_iff.mpr negated, checked, numberValue]
  rfl

end Effect.Makes

end Run

section

variable {σ : Type} (environment : Environment σ) {source : Heap}

theorem intLiteral_makes {fuel : Nat} {number : Int64}
    (bounded : (number.toInt != Number.least) = true) (machine : Machine σ) :
    ((level environment (fuel + 2)).evaluate (intLiteral number)).Makes machine (.int number)
      machine.heap := by
  unfold intLiteral
  split
  · have operand : ((level environment (fuel + 1)).evaluate
        (.int (Int64.ofInt (-number.toInt)))).Makes machine
          (Value.int (Int64.ofInt (-number.toInt))) machine.heap := .pure _
    exact operand.bind (.negate rfl (by rw [toInt_ofInt_neg bounded, Int.neg_neg]))
  · exact .pure (Value.int number)

mutual

theorem Key.literal_makes (key : Key) (readable : key.isReadable = true) {fuel : Nat}
    (room : key.nesting + 2 ≤ fuel) (machine : Machine σ) :
    ∃ value heap,
      ((level environment fuel).evaluate key.literal).Makes machine value heap ∧
        machine.heap.Retains heap ∧ value.toKey = .ok key := by
  obtain ⟨below, rfl, inner⟩ := room_of_nesting _ room
  match key, readable with
  | .none, _ => exact ⟨.none, _, .pure _, .refl _, rfl⟩
  | .bool truth, _ => exact ⟨.bool truth, _, .pure _, .refl _, rfl⟩
  | .str content, _ => exact ⟨.str content, _, .pure _, .refl _, rfl⟩
  | .float _, readable => cases readable
  | .int number, readable =>
      obtain ⟨fuel, rfl, -⟩ := room_of_nesting _ inner
      exact ⟨.int number, _, intLiteral_makes environment readable machine, .refl _, rfl⟩
  | .tuple items, readable =>
      obtain ⟨values, heap, made, keeps, same⟩ := keyLiterals_make items readable inner machine
      refine ⟨_, _, made.bind (.change fun heap => heap.newTuple values), keeps.trans (.newTuple _ _),
        ?_⟩
      simp only [Heap.newTuple, Value.toKey, same]
      rfl

theorem keyLiterals_make (keys : List Key) (readable : keysReadable keys = true) {fuel : Nat}
    (room : keysNesting keys + 2 ≤ fuel) (machine : Machine σ) :
    ∃ values heap,
      (evaluateAll (level environment fuel) (keyLiterals keys)).Makes machine values heap ∧
        machine.heap.Retains heap ∧ Value.toKeys values = .ok keys := by
  match keys, readable with
  | [], _ => exact ⟨[], _, .pure _, .refl _, rfl⟩
  | key :: rest, readable =>
      simp only [keysReadable, Bool.and_eq_true] at readable
      obtain ⟨firstRoom, restRoom⟩ : key.nesting + 2 ≤ fuel ∧ keysNesting rest + 2 ≤ fuel := by
        simp only [keysNesting] at room
        omega
      obtain ⟨value, middle, first, keepsFirst, same⟩ :=
        key.literal_makes readable.1 firstRoom machine
      obtain ⟨values, heap, others, keepsRest, sameRest⟩ :=
        keyLiterals_make rest readable.2 restRoom { machine with heap := middle }
      refine ⟨value :: values, heap, first.bind others.andThen, keepsFirst.trans keepsRest, ?_⟩
      simp only [Value.toKeys, same, sameRest]
      rfl

end

mutual

theorem Datum.literal_makes (datum : Datum) {original : Value} (shown : datum.IsOf source original)
    (readable : datum.isReadable = true) {fuel : Nat} (room : datum.nesting + 2 ≤ fuel)
    (machine : Machine σ) :
    ∃ value heap,
      ((level environment fuel).evaluate datum.literal).Makes machine value heap ∧
        machine.heap.Retains heap ∧ datum.IsOf heap value := by
  obtain ⟨below, rfl, inner⟩ := room_of_nesting _ room
  match datum, shown, readable with
  | .none, _, _ => exact ⟨.none, _, .pure _, .refl _, rfl⟩
  | .bool truth, _, _ => exact ⟨.bool truth, _, .pure _, .refl _, rfl⟩
  | .str content, _, _ => exact ⟨.str content, _, .pure _, .refl _, rfl⟩
  | .int number, _, readable =>
      obtain ⟨fuel, rfl, -⟩ := room_of_nesting _ inner
      exact ⟨.int number, _, intLiteral_makes environment readable machine, .refl _, rfl⟩
  | .list items, shown, readable =>
      obtain ⟨_, _, -, -, parts⟩ := shown
      obtain ⟨values, heap, made, keeps, inside⟩ :=
        itemLiterals_make items parts readable inner machine
      have stored : (heap.newList values.toArray).2.lists[heap.lists.size]? = some values.toArray :=
        Array.getElem?_push_size
      exact ⟨_, _, made.bind (.change fun heap => heap.newList values.toArray),
        keeps.trans (.newList _ _), _, _, rfl, stored,
        itemsAreOf_mono (.newList _ _) (by simpa using inside)⟩
  | .tuple items, shown, readable =>
      obtain ⟨_, _, -, parts⟩ := shown
      obtain ⟨values, heap, made, keeps, inside⟩ :=
        itemLiterals_make items parts readable inner machine
      exact ⟨_, _, made.bind (.change fun heap => heap.newTuple values),
        keeps.trans (.newTuple _ _), _, _, rfl, itemsAreOf_mono (.newTuple _ _) inside⟩
  | .dict entries, shown, readable =>
      obtain ⟨_, _, -, -, parts⟩ := shown
      obtain ⟨dict, values, heap, made, same, keeps, inside⟩ := entryLiterals_make entries parts readable
        inner .empty (Dict.apart_of_entriesAreOf parts) machine
      have stored : (heap.newDict dict).2.dicts[heap.dicts.size]? = some dict :=
        Array.getElem?_push_size
      rw [show values = dict.entries from same.symm] at inside
      exact ⟨_, _, made.bind (.change fun heap => heap.newDict dict),
        keeps.trans (.newDict _ _), _, _, rfl, stored, entriesAreOf_mono (.newDict _ _) inside⟩

theorem itemLiterals_make (items : List Datum) {originals : List Value}
    (shown : itemsAreOf source items originals) (readable : itemsReadable items = true) {fuel : Nat}
    (room : itemsNesting items + 2 ≤ fuel) (machine : Machine σ) :
    ∃ values heap,
      (evaluateAll (level environment fuel) (itemLiterals items)).Makes machine values heap ∧
        machine.heap.Retains heap ∧ itemsAreOf heap items values := by
  match items, shown, readable with
  | [], _, _ => exact ⟨[], _, .pure _, .refl _, rfl⟩
  | item :: rest, shown, readable =>
      obtain ⟨_, _, -, firstShown, restShown⟩ := shown
      simp only [itemsReadable, Bool.and_eq_true] at readable
      obtain ⟨firstRoom, restRoom⟩ : item.nesting + 2 ≤ fuel ∧ itemsNesting rest + 2 ≤ fuel := by
        simp only [itemsNesting] at room
        omega
      obtain ⟨value, middle, first, keepsFirst, isValue⟩ :=
        item.literal_makes firstShown readable.1 firstRoom machine
      obtain ⟨values, heap, others, keepsRest, inside⟩ :=
        itemLiterals_make rest restShown readable.2 restRoom { machine with heap := middle }
      exact ⟨value :: values, heap, first.bind others.andThen, keepsFirst.trans keepsRest,
        value, values, rfl, isValue.mono keepsRest, inside⟩

theorem entryLiterals_make (entries : List (Key × Datum)) {originals : List (Key × Value)}
    (shown : entriesAreOf source entries originals) (readable : entriesReadable entries = true)
    {fuel : Nat} (room : entriesNesting entries + 2 ≤ fuel) (before : Dict Value)
    (apart : (before.keys ++ entries.map Prod.fst).Pairwise fun key other => key.finds other = false)
    (machine : Machine σ) :
    ∃ dict values heap,
      (evaluateEntries (level environment fuel) before (entryLiterals entries)).Makes machine dict heap ∧
        dict.entries = before.entries ++ values ∧
        machine.heap.Retains heap ∧ entriesAreOf heap entries values := by
  match entries, shown, readable with
  | [], _, _ => exact ⟨before, [], _, .pure before, (List.append_nil _).symm, .refl _, rfl⟩
  | (key, item) :: rest, shown, readable =>
      obtain ⟨_, _, -, itemShown, restShown⟩ := shown
      simp only [entriesReadable, Bool.and_eq_true] at readable
      obtain ⟨keyRoom, itemRoom, restRoom⟩ : key.nesting + 2 ≤ fuel ∧ item.nesting + 2 ≤ fuel ∧
          entriesNesting rest + 2 ≤ fuel := by
        simp only [entriesNesting] at room
        omega
      have absent : ∀ other ∈ before.keys, other.finds key = false := fun other member =>
        (List.pairwise_append.mp apart).2.2 other member key List.mem_cons_self
      have set (value : Value) : (before.insert key value).entries = before.entries ++ [(key, value)] :=
        Dict.setIn_of_absent absent
      obtain ⟨keyValue, middle, first, keepsFirst, same⟩ :=
        key.literal_makes environment readable.1.1 keyRoom machine
      obtain ⟨value, later, second, keepsSecond, isValue⟩ :=
        item.literal_makes itemShown readable.1.2 itemRoom { machine with heap := middle }
      obtain ⟨dict, values, heap, others, behind, keepsRest, inside⟩ :=
        entryLiterals_make rest restShown readable.2 restRoom (before.insert key value)
          (by simpa [set, Dict.keys] using apart) { machine with heap := later }
      exact ⟨dict, (key, value) :: values, heap,
        first.bind (Effect.Makes.bind (.keyOf same) (second.bind others)), by simp [behind, set],
        keepsFirst.trans (keepsSecond.trans keepsRest), value, values, rfl, isValue.mono keepsRest,
        inside⟩

end

end

end Stepwise
