import Stepwise.Proofs.Containers.Chronicle

/-!
What look-ups in a dict and views of it show.

All of them tell the same: the keys that stand according to the history of the dict, in that order,
with their current values.
-/

namespace Stepwise.Run

open Script Stepwise.Run.Action

/-- What can be seen of a dict with a history. -/
structure Shows (history : List (Dict.Change Value)) (heap : Heap) (ref : Nat) : Prop where
  entries : (heap.dict ref).entries = Dict.standing history
  subscript : ∀ index key, index.toKey = .ok key → key.FloatFree →
    item (.dict ref) index heap =
      some (match Dict.current? history key with
        | some value => .ok value
        | none => .error (.key (index.render heap)), heap)
  get : ∀ index others key, index.toKey = .ok key → key.FloatFree → others.length ≤ 1 →
    dictMethod ref "get" (index :: others) [] heap =
      some (.ok (((Dict.current? history key).or others.head?).getD .none), heap)
  member : ∀ depth index key, index.toKey = .ok key → key.FloatFree →
    comparison depth .member index (.dict ref) heap =
      some (.ok (Dict.current? history key).isSome, heap)
  keys : ∃ keys after, dictMethod ref "keys" [] [] heap = some (.ok (.list heap.lists.size), after) ∧
    (after.list heap.lists.size).toList = keys ∧
      Value.toKeys keys = .ok ((Dict.standing history).map Prod.fst)
  values : ∃ after, dictMethod ref "values" [] [] heap = some (.ok (.list heap.lists.size), after) ∧
    (after.list heap.lists.size).toList = (Dict.standing history).map Prod.snd
  items : ∃ tuples after,
    dictMethod ref "items" [] [] heap = some (.ok (.list heap.lists.size), after) ∧
      (after.list heap.lists.size).toList = tuples ∧
        List.Forall₂ (fun entry tuple => ∃ tag index, tuple = .tuple tag [index, entry.2] ∧
          index.toKey = .ok entry.1) (Dict.standing history) tuples
  walk : ∃ keys after, (Value.dict ref).walk? heap = some (.own ⟨.dict, .items keys⟩, after) ∧
    Value.toKeys keys = .ok ((Dict.standing history).map Prod.fst)
  length : lengthOf (.dict ref) heap =
    some (.ok (.int (Int64.ofNat (Dict.standing history).length)), heap)

variable {heap : Heap} {ref : Nat} {history : List (Dict.Change Value)}

theorem keyOf_apply {index : Value} {key : Key} (named : index.toKey = .ok key) (heap : Heap) :
    keyOf index heap = some (.ok key, heap) := by
  rw [keyOf, named]
  rfl

theorem item_dict {index : Value} {key : Key} (named : index.toKey = .ok key) :
    item (.dict ref) index heap =
      some (match (heap.dict ref).get? key with
        | some value => .ok value
        | none => .error (.key (index.render heap)), heap) := by
  rw [item, bind_apply, keyOf_apply named]
  simp only [bind_apply, observe]
  cases (heap.dict ref).get? key <;> rfl

theorem dictMethod_get {index : Value} {others : List Value} {key : Key}
    (named : index.toKey = .ok key) (few : others.length ≤ 1) :
    dictMethod ref "get" (index :: others) [] heap =
      some (.ok ((((heap.dict ref).get? key).or others.head?).getD .none), heap) := by
  have looked (default : Option Value) :
      (do
        let key ← keyOf index
        return (((heap.dict ref).get? key).or default).getD .none : Action Value) heap =
        some (.ok ((((heap.dict ref).get? key).or default).getD .none), heap) := by
    rw [bind_apply, keyOf_apply named]
    rfl
  match others, few with
  | [], _ => exact looked none
  | [default], _ => exact looked (some default)

theorem member_dict {depth : Nat} {index : Value} {key : Key} (named : index.toKey = .ok key) :
    comparison depth .member index (.dict ref) heap =
      some (.ok ((heap.dict ref).get? key).isSome, heap) := by
  rw [comparison, contains, bind_apply, keyOf_apply named]
  rfl

theorem dictMethod_keys :
    dictMethod ref "keys" [] [] heap =
      some (.ok (.list (keysToValues heap (heap.dict ref).keys).2.lists.size),
        ((keysToValues heap (heap.dict ref).keys).2.newList
          (keysToValues heap (heap.dict ref).keys).1.toArray).2) := rfl

theorem dictMethod_values :
    dictMethod ref "values" [] [] heap =
      some (.ok (.list heap.lists.size), (heap.newList (heap.dict ref).values.toArray).2) := rfl

theorem entryTuples_apply (entries : List (Key × Value)) (heap : Heap) :
    ∃ tuples after, entryTuples entries heap = some (.ok tuples, after) ∧
      List.Forall₂ (fun entry tuple => ∃ tag index, tuple = .tuple tag [index, entry.2] ∧
        index.toKey = .ok entry.1) entries tuples := by
  induction entries generalizing heap with
  | nil => exact ⟨[], heap, rfl, .nil⟩
  | cons entry rest inductionHypothesis =>
      let keyed := (entry.1.toValue heap).2
      obtain ⟨tuples, after, made, tell⟩ :=
        inductionHypothesis (keyed.newTuple [(entry.1.toValue heap).1, entry.2]).2
      refine ⟨.tuple keyed.nextTag [(entry.1.toValue heap).1, entry.2] :: tuples, after, ?_,
        .cons ⟨_, _, rfl, Key.toKey_toValue heap entry.1⟩ tell⟩
      have behind : (do
          let others ← entryTuples rest
          return Value.tuple keyed.nextTag [(entry.1.toValue heap).1, entry.2] :: others)
            (keyed.newTuple [(entry.1.toValue heap).1, entry.2]).2 =
          some (.ok (.tuple keyed.nextTag [(entry.1.toValue heap).1, entry.2] :: tuples), after) := by
        rw [bind_apply, made]
        rfl
      exact behind

theorem dictMethod_items {tuples : List Value} {after : Heap}
    (made : entryTuples (heap.dict ref).entries heap = some (.ok tuples, after)) :
    dictMethod ref "items" [] [] heap =
      some (.ok (.list after.lists.size), (after.newList tuples.toArray).2) := by
  have listed : (do newList (← entryTuples (heap.dict ref).entries)) heap =
      some (.ok (.list after.lists.size), (after.newList tuples.toArray).2) := by
    rw [bind_apply, made]
    rfl
  exact listed

theorem shows_of_replay (replayed : heap.dict ref = Dict.replay history)
    (free : Dict.HistoryFloatFree history) : Shows history heap ref := by
  have entries : (heap.dict ref).entries = Dict.standing history := by
    rw [replayed, Dict.entries_replay free]
  have found {key : Key} (keyFree : key.FloatFree) :
      (heap.dict ref).get? key = Dict.current? history key := by
    rw [replayed, Dict.get?_replay free keyFree]
  have keys : Value.toKeys (keysToValues heap (heap.dict ref).keys).1 =
      .ok ((Dict.standing history).map Prod.fst) := by
    rw [toKeys_keysToValues, Dict.keys, entries]
  have sameSize := congrArg Array.size (Heap.Alike.keysToValues heap (heap.dict ref).keys).lists
  exact {
    entries := entries
    subscript := fun index key named keyFree => by rw [item_dict named, found keyFree]
    get := fun index others key named keyFree few => by
      rw [dictMethod_get named few, found keyFree]
    member := fun depth index key named keyFree => by rw [member_dict named, found keyFree]
    keys := by
      refine ⟨_, _, by rw [dictMethod_keys, sameSize], ?_, keys⟩
      rw [← sameSize, Heap.list_newList, List.toList_toArray]
    values := by
      refine ⟨_, dictMethod_values, ?_⟩
      rw [Heap.list_newList, List.toList_toArray, Dict.values, entries]
    items := by
      obtain ⟨tuples, after, made, tell⟩ := entryTuples_apply (heap.dict ref).entries heap
      have size := congrArg Array.size (Reads.entryTuples _ _ _ _ made).lists
      refine ⟨tuples, _, by rw [dictMethod_items made, size], ?_, entries ▸ tell⟩
      rw [← size, Heap.list_newList, List.toList_toArray]
    walk := ⟨_, _, rfl, keys⟩
    length := by
      rw [← entries]
      rfl }

/-- Dicts keep the order of insertion, over any run of displays, calls of `dict`, assignments,
look-ups and methods, between which anything may happen that leaves dicts alone.

If the keys that went through a dict have no double in them, its entries are the keys that stand: each
in the place and in the form in which it first came in since it was last removed, with its latest value.
No two of them are equal, and look-ups, membership and all views show just these entries.  A further
value for a key that is there changes neither the keys nor their order.  A copy starts with the same
entries, and from then on each of the two is as its own operations left it. -/
theorem run_shows {σ : Type} {before later : Chronicle × Heap}
    (run : Relation.ReflTransGen (Step σ) before later) (describes : Describes before.1 before.2)
    {ref : Nat} (inside : ref < later.2.dicts.size) (free : Dict.HistoryFloatFree (later.1 ref)) :
    Shows (later.1 ref) later.2 ref ∧
      ((later.2.dict ref).keys.Pairwise fun a b => a.equal b = false) ∧
      (∀ key value, key.FloatFree → (Dict.current? (later.1 ref) key).isSome →
        (Dict.standing (later.1 ref ++ [.put key value])).map Prod.fst =
          (Dict.standing (later.1 ref)).map Prod.fst) ∧
      (∃ after, dictMethod ref "copy" [] [] later.2 =
          some (.ok (.dict later.2.dicts.size), after) ∧
        after.dict later.2.dicts.size = later.2.dict ref) ∧
      ∀ (operation : Operation) value after,
        (∀ other ∈ operation.receiver?, other < later.2.dicts.size) →
          operation.receiver? ≠ some ref → operation.perform later.2 = some (.ok value, after) →
            after.dict ref = later.2.dict ref := by
  have shows := shows_of_replay (describes_run run describes ref inside) free
  refine ⟨shows, ?_, fun key value keyFree => Dict.keys_concat_put free keyFree, ?_, ?_⟩
  · rw [Dict.keys, shows.entries]
    exact List.pairwise_map.mpr (Dict.standing_apart free)
  · refine ⟨_, rfl, ?_⟩
    show ((later.2.dicts.push (later.2.dict ref))[later.2.dicts.size]?).getD .empty = _
    rw [Array.getElem?_push_size, Option.getD_some]
  · intro operation value after within other ended
    have recorded : Recorded later.1 later.2 after _ _ := Operation.perform_recorded within ended
    exact (recorded.others inside other).1

def heapOf (dicts : List (Dict Value)) : Heap := { Heap.empty with dicts := dicts.toArray }

/-- A dict with the key `True`, to which a value is assigned under `1`, and its copy, after which the
original loses a key. -/
theorem run_shows_copied :
    ∃ later : Chronicle × Heap,
      Relation.ReflTransGen (Step Unit) (fun _ => [], Heap.empty) later ∧
        Shows (later.1 0) later.2 0 ∧ Shows (later.1 1) later.2 1 ∧
          Dict.standing (later.1 0) = [(.bool true, .str "c")] ∧
            Dict.standing (later.1 1) = [(.bool true, .str "c"), (.int 2, .str "b")] := by
  let below : Level Unit := level ⟨0, [], 5, none⟩ 1
  let start : Machine Unit := .start .empty .empty ()
  have operands : Operands below [(.bool true, .str "a"), (.int 2, .str "b")] start
      [(.bool true, .str "a"), (.int 2, .str "b")] start :=
    .cons rfl rfl rfl (.cons rfl rfl rfl (.nil _))
  let displayedDict : Dict Value := ⟨[(.bool true, .str "a"), (.int 2, .str "b")], by decide⟩
  let assignedDict : Dict Value := ⟨[(.bool true, .str "c"), (.int 2, .str "b")], by decide⟩
  let poppedDict : Dict Value := ⟨[(.bool true, .str "c")], by decide⟩
  have displayed : evaluate below 0 (.dict [(.bool true, .str "a"), (.int 2, .str "b")]) start =
      some (.ok (.dict 0),
        { start with heap := heapOf [displayedDict] }) := rfl
  have assigned : (Operation.assign 0 (.int 1) (.str "c")).perform
      (heapOf [displayedDict]) =
        some (.ok .none, heapOf [assignedDict]) := rfl
  have copied : (Operation.method 0 "copy" [] []).perform
      (heapOf [assignedDict]) =
        some (.ok (.dict 1), heapOf [assignedDict, assignedDict]) := rfl
  have popped : (Operation.method 0 "pop" [.int 2] []).perform
      (heapOf [assignedDict, assignedDict]) =
        some (.ok (.str "b"), heapOf [poppedDict, assignedDict]) := rfl
  have performs {operation : Operation} {value : Value} {heap after : Heap} {chronicle : Chronicle}
      (ended : operation.perform heap = some (.ok value, after))
      (first : operation.receiver? = some 0) (full : 0 < heap.dicts.size) :
      Step Unit (chronicle, heap) (operation.record heap chronicle value, after) := by
    refine .performs (fun ref here => ?_) ended
    rw [first] at here
    cases here
    exact full
  have shown : Step Unit (fun _ => [], Heap.empty)
      (_, heapOf [displayedDict]) := .display operands displayed
  have run := (((Relation.ReflTransGen.single shown).tail (performs assigned rfl Nat.one_pos)).tail
    (performs copied rfl Nat.one_pos)).tail (performs popped rfl Nat.two_pos)
  have copyFree : Dict.HistoryFloatFree
      [.put (.bool true) (Value.str "a"), .put (.int 2) (.str "b"), .put (.int 1) (.str "c")] := by
    simp [Dict.HistoryFloatFree, Dict.Change.key, Key.FloatFree]
  have dropFree : (Dict.Change.drop (.int 2) : Dict.Change Value).key.FloatFree := trivial
  have originalFree := Dict.historyFloatFree_concat.mpr ⟨copyFree, dropFree⟩
  have fresh : Describes (fun _ => []) Heap.empty :=
    fun ref inside => absurd inside (Nat.not_lt_zero ref)
  exact ⟨_, run, (run_shows run fresh Nat.two_pos originalFree).1,
    (run_shows run fresh Nat.one_lt_two copyFree).1, rfl, rfl⟩

end Stepwise.Run
