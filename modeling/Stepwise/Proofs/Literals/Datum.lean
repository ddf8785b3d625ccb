import Stepwise.Proofs.Quoting

/-!
The trees of values.

A tree says what a value is made of and forgets where the parts are kept: two values of the same
tree have the same constructors, the same leaves and the same order of dict entries.  A value that
has a tree holds no floats, and no container is inside itself.
-/

namespace Stepwise

inductive Datum where
  | none
  | bool (value : Bool)
  | int (value : Int64)
  | str (content : String)
  | list (items : List Datum)
  | tuple (items : List Datum)
  | dict (entries : List (Key × Datum))

mutual

/-- Whether a value on a heap is made of what a tree says. -/
def Datum.IsOf (heap : Heap) : Datum → Value → Prop
  | .none, value => value = .none
  | .bool truth, value => value = .bool truth
  | .int number, value => value = .int number
  | .str content, value => value = .str content
  | .list items, value =>
      ∃ ref values, value = .list ref ∧ heap.lists[ref]? = some values ∧
        itemsAreOf heap items values.toList
  | .tuple items, value => ∃ tag values, value = .tuple tag values ∧ itemsAreOf heap items values
  | .dict entries, value =>
      ∃ ref dict, value = .dict ref ∧ heap.dicts[ref]? = some dict ∧
        entriesAreOf heap entries dict.entries

def itemsAreOf (heap : Heap) : List Datum → List Value → Prop
  | [], values => values = []
  | item :: items, values =>
      ∃ value rest, values = value :: rest ∧ item.IsOf heap value ∧ itemsAreOf heap items rest

def entriesAreOf (heap : Heap) : List (Key × Datum) → List (Key × Value) → Prop
  | [], values => values = []
  | (key, item) :: entries, values =>
      ∃ value rest, values = (key, value) :: rest ∧ item.IsOf heap value ∧
        entriesAreOf heap entries rest

end

mutual

theorem Datum.IsOf.unique {heap : Heap} {datum other : Datum} {value : Value}
    (shown : datum.IsOf heap value) (otherwise : other.IsOf heap value) : datum = other := by
  match datum, shown with
  | .none, shown | .bool _, shown | .int _, shown | .str _, shown =>
      obtain rfl := shown
      cases other <;> simp_all [Datum.IsOf]
  | .list items, shown =>
      obtain ⟨ref, values, rfl, found, inside⟩ := shown
      cases other with
      | list others =>
          obtain ⟨_, _, same, foundToo, insideToo⟩ := otherwise
          cases same
          rw [found] at foundToo
          cases foundToo
          rw [itemsAreOf_unique inside insideToo]
      | _ => simp [Datum.IsOf] at otherwise
  | .tuple items, shown =>
      obtain ⟨tag, values, rfl, inside⟩ := shown
      cases other with
      | tuple others =>
          obtain ⟨_, _, same, insideToo⟩ := otherwise
          cases same
          rw [itemsAreOf_unique inside insideToo]
      | _ => simp [Datum.IsOf] at otherwise
  | .dict entries, shown =>
      obtain ⟨ref, dict, rfl, found, inside⟩ := shown
      cases other with
      | dict others =>
          obtain ⟨_, _, same, foundToo, insideToo⟩ := otherwise
          cases same
          rw [found] at foundToo
          cases foundToo
          rw [entriesAreOf_unique inside insideToo]
      | _ => simp [Datum.IsOf] at otherwise

theorem itemsAreOf_unique {heap : Heap} {items others : List Datum} {values : List Value}
    (shown : itemsAreOf heap items values) (otherwise : itemsAreOf heap others values) :
    items = others := by
  match items, others, shown, otherwise with
  | [], [], _, _ => rfl
  | [], _ :: _, shown, otherwise =>
      obtain ⟨_, _, form, -⟩ := otherwise
      rw [shown] at form
      cases form
  | _ :: _, [], shown, otherwise =>
      obtain ⟨_, _, form, -⟩ := shown
      rw [otherwise] at form
      cases form
  | item :: items, other :: others, shown, otherwise =>
      obtain ⟨value, rest, rfl, first, inside⟩ := shown
      obtain ⟨_, _, form, firstToo, insideToo⟩ := otherwise
      cases form
      rw [first.unique firstToo, itemsAreOf_unique inside insideToo]

theorem entriesAreOf_unique {heap : Heap} {entries others : List (Key × Datum)}
    {values : List (Key × Value)} (shown : entriesAreOf heap entries values)
    (otherwise : entriesAreOf heap others values) : entries = others := by
  match entries, others, shown, otherwise with
  | [], [], _, _ => rfl
  | [], _ :: _, shown, otherwise =>
      obtain ⟨_, _, form, -⟩ := otherwise
      rw [shown] at form
      cases form
  | _ :: _, [], shown, otherwise =>
      obtain ⟨_, _, form, -⟩ := shown
      rw [otherwise] at form
      cases form
  | (key, item) :: entries, (_, other) :: others, shown, otherwise =>
      obtain ⟨value, rest, rfl, first, inside⟩ := shown
      obtain ⟨_, _, form, firstToo, insideToo⟩ := otherwise
      cases form
      rw [first.unique firstToo, entriesAreOf_unique inside insideToo]

end

theorem keys_of_entriesAreOf {heap : Heap} {entries : List (Key × Datum)} {values : List (Key × Value)}
    (shown : entriesAreOf heap entries values) : entries.map Prod.fst = values.map Prod.fst := by
  induction entries generalizing values with
  | nil => rw [shown, List.map_nil, List.map_nil]
  | cons entry entries inductionHypothesis =>
      obtain ⟨value, rest, rfl, -, inside⟩ := shown
      rw [List.map_cons, List.map_cons, inductionHypothesis inside]

theorem Dict.apart_of_entriesAreOf {heap : Heap} {entries : List (Key × Datum)} {dict : Dict Value}
    (shown : entriesAreOf heap entries dict.entries) :
    (entries.map Prod.fst).Pairwise fun key other => key.finds other = false := by
  rw [keys_of_entriesAreOf shown]
  exact List.pairwise_map.mpr dict.distinct

structure Heap.Retains (heap after : Heap) : Prop where
  lists : ∀ (ref : Nat) (values : Array Value), heap.lists[ref]? = some values →
    after.lists[ref]? = some values
  dicts : ∀ (ref : Nat) (dict : Dict Value), heap.dicts[ref]? = some dict →
    after.dicts[ref]? = some dict

namespace Heap.Retains

theorem refl (heap : Heap) : heap.Retains heap := ⟨fun _ _ => id, fun _ _ => id⟩

theorem trans {heap middle after : Heap} (first : heap.Retains middle) (second : middle.Retains after) :
    heap.Retains after :=
  ⟨fun ref values found => second.lists ref values (first.lists ref values found),
    fun ref dict found => second.dicts ref dict (first.dicts ref dict found)⟩

theorem newTuple (heap : Heap) (items : List Value) : heap.Retains (heap.newTuple items).2 :=
  ⟨fun _ _ => id, fun _ _ => id⟩

theorem newList (heap : Heap) (items : Array Value) : heap.Retains (heap.newList items).2 := by
  refine ⟨fun ref values found => ?_, fun _ _ => id⟩
  obtain ⟨inside, -⟩ := Array.getElem?_eq_some_iff.mp found
  simpa [Heap.newList, Array.getElem?_push, Nat.ne_of_lt inside] using found

theorem newDict (heap : Heap) (entries : Dict Value) : heap.Retains (heap.newDict entries).2 := by
  refine ⟨fun _ _ => id, fun ref dict found => ?_⟩
  obtain ⟨inside, -⟩ := Array.getElem?_eq_some_iff.mp found
  simpa [Heap.newDict, Array.getElem?_push, Nat.ne_of_lt inside] using found

end Heap.Retains

mutual

/-- A value keeps its tree on a heap that retains what its own one holds. -/
theorem Datum.IsOf.mono {heap after : Heap} (keeps : heap.Retains after) {datum : Datum}
    {value : Value} (shown : datum.IsOf heap value) : datum.IsOf after value := by
  match datum, shown with
  | .none, shown | .bool _, shown | .int _, shown | .str _, shown => exact shown
  | .list items, shown =>
      obtain ⟨ref, values, same, found, inside⟩ := shown
      exact ⟨ref, values, same, keeps.lists ref values found, itemsAreOf_mono keeps inside⟩
  | .tuple items, shown =>
      obtain ⟨tag, values, same, inside⟩ := shown
      exact ⟨tag, values, same, itemsAreOf_mono keeps inside⟩
  | .dict entries, shown =>
      obtain ⟨ref, dict, same, found, inside⟩ := shown
      exact ⟨ref, dict, same, keeps.dicts ref dict found, entriesAreOf_mono keeps inside⟩

theorem itemsAreOf_mono {heap after : Heap} (keeps : heap.Retains after) {items : List Datum}
    {values : List Value} (shown : itemsAreOf heap items values) :
    itemsAreOf after items values := by
  match items, shown with
  | [], shown => exact shown
  | _ :: _, shown =>
      obtain ⟨value, rest, same, first, inside⟩ := shown
      exact ⟨value, rest, same, first.mono keeps, itemsAreOf_mono keeps inside⟩

theorem entriesAreOf_mono {heap after : Heap} (keeps : heap.Retains after)
    {entries : List (Key × Datum)} {values : List (Key × Value)}
    (shown : entriesAreOf heap entries values) : entriesAreOf after entries values := by
  match entries, shown with
  | [], shown => exact shown
  | _ :: _, shown =>
      obtain ⟨value, rest, same, first, inside⟩ := shown
      exact ⟨value, rest, same, first.mono keeps, entriesAreOf_mono keeps inside⟩

end

mutual

/-- How many tuples are inside each other in a key. -/
def Key.nesting : Key → Nat
  | .tuple items => keysNesting items + 1
  | _ => 0

def keysNesting : List Key → Nat
  | [] => 0
  | key :: rest => max key.nesting (keysNesting rest)

end

mutual

/-- How many containers are inside each other in a tree. -/
def Datum.nesting : Datum → Nat
  | .list items | .tuple items => itemsNesting items + 1
  | .dict entries => entriesNesting entries + 1
  | _ => 0

def itemsNesting : List Datum → Nat
  | [] => 0
  | item :: rest => max item.nesting (itemsNesting rest)

def entriesNesting : List (Key × Datum) → Nat
  | [] => 0
  | (key, item) :: rest => max (max key.nesting item.nesting) (entriesNesting rest)

end

/-- Whether every character of a text is quoted as itself or by an escape that literals know. -/
def Text.isReadable (content : String) : Bool := content.toList.all fun c => !isCoded c

mutual

/-- Whether the text of a key can be read: it has no floats, not the least integer, and readable
strings only. -/
def Key.isReadable : Key → Bool
  | .none | .bool _ => true
  | .int value => value.toInt != Number.least
  | .float _ => false
  | .str content => Text.isReadable content
  | .tuple items => keysReadable items

def keysReadable : List Key → Bool
  | [] => true
  | key :: rest => key.isReadable && keysReadable rest

end

mutual

/-- Whether the text of a tree can be read: it has not the least integer, and only readable strings and
keys. -/
def Datum.isReadable : Datum → Bool
  | .none | .bool _ => true
  | .int value => value.toInt != Number.least
  | .str content => Text.isReadable content
  | .list items | .tuple items => itemsReadable items
  | .dict entries => entriesReadable entries

def itemsReadable : List Datum → Bool
  | [] => true
  | item :: rest => item.isReadable && itemsReadable rest

def entriesReadable : List (Key × Datum) → Bool
  | [] => true
  | (key, item) :: rest => key.isReadable && item.isReadable && entriesReadable rest

end

end Stepwise
