import Stepwise.Proofs.Twins.Functions
import Stepwise.Run.Execution

/-!
Methods of lists, dicts and strings, sorting and unpacking are tame.
-/

namespace Stepwise.Run

/-- An entry of a sort whose score and item are within a bound. -/
abbrev Scored.Within (functions : Nat) (entry : Scored) : Prop :=
  entry.score.Within functions ∧ entry.item.Within functions

namespace Scored

theorem goesFirst_rehomed (home : Nat) (heap : Heap) (depth : Nat) (descending : Bool)
    (left right : Scored) :
    goesFirst (heap.rehomed home) depth descending left right =
      goesFirst heap depth descending left right := by
  simp only [goesFirst, Query.less_rehomed]

theorem goesFirst_yields (heap : Heap) (depth : Nat) (descending : Bool) (left right : Scored) :
    Query.Yields (goesFirst heap depth descending left right) fun _ => True := by
  unfold goesFirst
  split <;> exact Query.less_yields _ _ _ _

theorem merge_rehomed (home : Nat) (heap : Heap) (depth : Nat) (descending : Bool)
    (left right : List Scored) :
    merge (heap.rehomed home) depth descending left right = merge heap depth descending left right := by
  fun_induction merge heap depth descending left right with
  | case1 right => rw [merge]
  | case2 left more =>
      rw [merge]
      exact more
  | case3 a left b right takesRight takesLeft =>
      rw [merge, goesFirst_rehomed, takesRight, takesLeft]

theorem merge_yields (heap : Heap) (depth : Nat) (descending : Bool) (left right : List Scored)
    {good : Scored → Prop} (leftGood : ∀ entry ∈ left, good entry)
    (rightGood : ∀ entry ∈ right, good entry) :
    Query.Yields (merge heap depth descending left right) fun entries =>
      ∀ entry ∈ entries, good entry := by
  fun_induction merge heap depth descending left right with
  | case1 right => exact .pure rightGood
  | case2 left => exact .pure leftGood
  | case3 a left b right takesRight takesLeft =>
      obtain ⟨firstLeft, restLeft⟩ := List.forall_mem_cons.mp leftGood
      obtain ⟨firstRight, restRight⟩ := List.forall_mem_cons.mp rightGood
      refine (goesFirst_yields heap depth descending a b).bind fun first _ => ?_
      cases first with
      | true =>
          refine (takesRight leftGood restRight).bind fun entries all => ?_
          exact .pure (List.forall_mem_cons.mpr ⟨firstRight, all⟩)
      | false =>
          refine (takesLeft restLeft rightGood).bind fun entries all => ?_
          exact .pure (List.forall_mem_cons.mpr ⟨firstLeft, all⟩)

theorem sort_rehomed (home : Nat) (heap : Heap) (depth : Nat) (descending : Bool)
    (entries : List Scored) :
    sort (heap.rehomed home) depth descending entries = sort heap depth descending entries := by
  fun_induction sort heap depth descending entries with
  | case1 entries few => rw [sort, if_pos few]
  | case2 entries several middle left right =>
      rw [sort, if_neg several]
      simp only [merge_rehomed]
      rw [left, right]

theorem sort_yields (heap : Heap) (depth : Nat) (descending : Bool) (entries : List Scored)
    {good : Scored → Prop} (all : ∀ entry ∈ entries, good entry) :
    Query.Yields (sort heap depth descending entries) fun sorted =>
      ∀ entry ∈ sorted, good entry := by
  fun_induction sort heap depth descending entries with
  | case1 entries few => exact .pure all
  | case2 entries several middle left right =>
      refine (left fun entry member => all entry (List.mem_of_mem_take member)).bind fun _ first => ?_
      refine (right fun entry member => all entry (List.mem_of_mem_drop member)).bind fun _ second => ?_
      exact merge_yields heap depth descending _ _ first second

end Scored

namespace Action.Tame

variable {functions : Nat}

theorem sort (depth : Nat) (descending : Bool) {entries : List Scored}
    (within : ∀ entry ∈ entries, entry.Within functions) :
    Tame functions (Action.ask fun heap => Scored.sort heap depth descending entries)
      fun sorted => ∀ entry ∈ sorted, entry.Within functions :=
  ask (fun home heap => Scored.sort_rehomed home heap depth descending entries)
    fun heap _ => Scored.sort_yields heap depth descending entries within

theorem noAttribute {α : Type} {expected : α → Prop} (object : Value) (name : String) :
    Tame functions (Run.noAttribute object name) expected :=
  (typeName object).sequence fun _ => throw trivial

theorem firstWhere? {test : Value → Heap → Query Bool}
    (asks : ∀ value, Tame functions (Action.ask (test value)) fun _ => True) (position : Nat)
    (values : List Value) : Tame functions (Run.firstWhere? test position values) fun _ => True := by
  induction values generalizing position with
  | nil => exact pure trivial
  | cons value rest inductionHypothesis =>
      refine (asks value).sequence fun found => ?_
      cases found with
      | true => exact pure trivial
      | false => exact inductionHypothesis (position + 1)

theorem countEqual (depth : Nat) (item : Value) (values : List Value) :
    Tame functions (Run.countEqual depth item values) fun _ => True := by
  induction values with
  | nil => exact pure trivial
  | cons value rest inductionHypothesis =>
      refine (equal depth value item).sequence fun here => ?_
      exact inductionHypothesis.sequence fun _ => pure trivial

theorem listMethod (depth ref : Nat) (method : String) {arguments : List Value}
    (within : AllWithin functions arguments) :
    Tame functions (Run.listMethod depth ref method arguments) fun value =>
      value.Within functions := by
  have first := within.head
  have counted : ∀ least most : Nat, Tame functions
      (Run.argumentCount method arguments.length least (some most)) fun _ => True :=
    fun least most => argumentCount _ _ _ _
  have changed : ∀ {change : Array Value → Array Value},
      (∀ items, AllWithin functions items.toList → AllWithin functions (change items).toList) →
      Tame functions (do
        Action.update fun heap => heap.modifyList ref change
        return Value.none) fun value => value.Within functions :=
    fun keeps => (modifyList ref keeps).sequence fun _ => pure trivial
  have erased : ∀ (position : Nat) (items : Array Value), AllWithin functions items.toList →
      AllWithin functions (items.eraseIdxIfInBounds position).toList := by
    intro position items bound
    rw [Array.toList_eraseIdxIfInBounds]
    exact bound.sublist (List.eraseIdx_subset)
  have appended : ∀ {extra : List Value}, AllWithin functions extra → ∀ items : Array Value,
      AllWithin functions items.toList → AllWithin functions (items ++ extra.toArray).toList := by
    intro extra more items bound
    rw [Array.toList_append, List.toList_toArray]
    exact List.forall_mem_append.mpr ⟨bound, more⟩
  refine (list ref).bind fun items bound => ?_
  dsimp only
  split
  · refine (counted _ _).sequence fun _ => changed fun items bound => ?_
    rw [Array.toList_push]
    exact List.forall_mem_append.mpr ⟨bound, List.forall_mem_singleton.mpr first⟩
  · have popped : ∀ index : Int64, Tame functions (do
        let position ← Run.itemAt (position? index items.size) .pop
        let item ← Run.itemAt items[position]? .pop
        Action.update fun heap => heap.modifyList ref fun items => items.eraseIdxIfInBounds position
        return item) fun value => value.Within functions := by
      intro index
      refine (anyItemAt _ _).sequence fun position => ?_
      have picked : Tame functions (Run.itemAt items[position]? .pop) fun item =>
          item.Within functions :=
        itemAt _ _ fun item found => bound item (Array.mem_toList_iff.mpr (Array.mem_of_getElem? found))
      exact picked.bind fun item within => (modifyList ref (erased position)).sequence fun _ =>
        pure within
    refine (counted _ _).sequence fun _ => barring trivial ?_
    split
    · exact (given _).sequence popped
    · exact (integerArgument _).sequence popped
  · refine (counted _ _).sequence fun _ => (integerArgument _).sequence fun index => ?_
    refine changed fun items bound => ?_
    unfold Array.insertIdxIfInBounds
    split
    · intro item member
      rcases Array.mem_insertIdx.mp (Array.mem_toList_iff.mp member) with rfl | member
      · exact within.getD 1
      · exact bound item (Array.mem_toList_iff.mpr member)
    · exact bound
  · refine (counted _ _).sequence fun _ => (itemsOf first).bind fun extra more => ?_
    exact changed (appended more)
  · refine (counted _ _).sequence fun _ => (firstWhere? (equalBeside ref depth · _) _ _).sequence fun found => ?_
    split
    · exact changed (erased _)
    · exact throw trivial
  · refine (counted _ _).sequence fun _ => (firstWhere? (equal depth · _) _ _).sequence fun found => ?_
    split
    · exact pure trivial
    · exact (render _).sequence fun _ => throw trivial
  · exact (counted _ _).sequence fun _ => (countEqual _ _ _).sequence fun _ => pure trivial
  · refine (counted _ _).sequence fun _ => changed fun items bound => ?_
    rw [Array.toList_reverse]
    exact fun item member => bound item (List.mem_reverse.mp member)
  · exact (counted _ _).sequence fun _ => newList bound
  · exact (counted _ _).sequence fun _ => changed fun _ _ => List.forall_mem_nil _
  · exact noAttribute _ _

theorem entryTuples {entries : List (Key × Value)}
    (within : ∀ entry ∈ entries, entry.2.Within functions) :
    Tame functions (Run.entryTuples entries) fun tuples => AllWithin functions tuples := by
  induction entries with
  | nil => exact pure nofun
  | cons entry rest inductionHypothesis =>
      obtain ⟨first, others⟩ := List.forall_mem_cons.mp within
      have key : Tame functions (Action.change entry.1.toValue) fun key => key.Within functions :=
        change (fun home heap => Key.toValue_rehomed home heap entry.1)
          fun heap holds => ⟨entry.1.toValue_fst functions heap, Key.toValue_keeps holds entry.1⟩
      refine key.bind fun key bound => ?_
      have both : AllWithin functions [key, entry.2] :=
        List.forall_mem_cons.mpr ⟨bound, List.forall_mem_singleton.mpr first⟩
      refine (newTuple both).bind fun tuple bound => ?_
      refine (inductionHypothesis others).bind fun tuples all => ?_
      exact pure (List.forall_mem_cons.mpr ⟨bound, all⟩)

theorem dictMethod (ref : Nat) (method : String) {arguments : List Value}
    (within : AllWithin functions arguments) {keywords : Keywords}
    (named : KeywordsWithin functions keywords) :
    Tame functions (Run.dictMethod ref method arguments keywords) fun value =>
      value.Within functions := by
  have first := within.head
  have counted : ∀ least most : Nat, Tame functions
      (Run.argumentCount method arguments.length least (some most)) fun _ => True :=
    fun least most => argumentCount _ _ _ _
  have keys : ∀ keys : List Key, Tame functions
      (Action.change fun heap => keysToValues heap keys) fun values => AllWithin functions values :=
    fun keys => change (fun home heap => keysToValues_rehomed home heap keys)
      fun heap holds => ⟨keysToValues_fst functions heap keys, keysToValues_keeps holds keys⟩
  unfold Run.dictMethod
  refine checked (noKeywords _ _) ?_
  refine (dict ref).bind fun entries bound => ?_
  dsimp only
  split
  · refine (counted _ _).sequence fun _ => (keyOf _).sequence fun key => pure ?_
    exact within_getD (within_or (fun value => bound.get?) (within_getElem? within 1)) trivial
  · exact (counted _ _).sequence fun _ => (keys _).bind fun values all => newList all
  · exact (counted _ _).sequence fun _ => newList bound.values
  · exact (counted _ _).sequence fun _ => (entryTuples bound).bind fun tuples all => newList all
  · refine (counted _ _).sequence fun _ => (keyOf _).sequence fun key => ?_
    split
    · rename_i found
      exact (modifyDict ref fun dict inside => inside.erase key).sequence fun _ => pure (bound.get? found)
    · exact pure (within_getElem? within 1 _ ‹_›)
    · exact (render _).sequence fun _ => throw trivial
  · have merged : ∀ {entries : Dict Value}, entries.Within functions → Tame functions (do
        Action.update fun heap => heap.modifyDict ref fun _ => withKeywords entries keywords
        return Value.none) fun value => value.Within functions :=
      fun inside => (modifyDict ref fun _ _ => withKeywords_within inside named).sequence fun _ =>
        pure trivial
    refine (counted _ _).sequence fun _ => ?_
    split
    · exact (show Tame functions (Pure.pure entries) fun entries => entries.Within functions from
        pure bound).bind fun _ inside => merged inside
    · exact (updated bound (within _ List.mem_cons_self)).bind fun _ inside => merged inside
  · exact (counted _ _).sequence fun _ => newDict bound
  · exact noAttribute _ _

theorem joinedTexts (position : Nat) (items : List Value) :
    Tame functions (Run.joinedTexts position items) fun _ => True := by
  induction items generalizing position with
  | nil => exact pure trivial
  | cons item rest inductionHypothesis =>
      cases item with
      | str content => exact (inductionHypothesis (position + 1)).sequence fun _ => pure trivial
      | _ => exact typeError _ _

theorem splitText (text : List Char) (separator : Option Value) (limit : Int) :
    Tame functions (Run.splitText text separator limit) fun _ => True := by
  unfold Run.splitText
  dsimp only
  split
  · exact pure trivial
  · exact pure trivial
  · refine (textArgument _ _).sequence fun separator => ?_
    split
    · exact throw trivial
    · split <;> exact pure trivial

theorem strMethod (content method : String) {arguments : List Value}
    (within : AllWithin functions arguments) :
    Tame functions (Run.strMethod content method arguments) fun value => value.Within functions := by
  have first := within.head
  have counted : ∀ least most : Nat, Tame functions
      (Run.argumentCount method arguments.length least (some most)) fun _ => True :=
    fun least most => argumentCount _ _ _ _
  have argument : ∀ value, Tame functions (Run.textArgument method value) fun _ => True :=
    textArgument method
  unfold Run.strMethod
  dsimp only
  split
  · exact (counted _ _).sequence fun _ => pure trivial
  · exact (counted _ _).sequence fun _ => pure trivial
  · refine (counted _ _).sequence fun _ => ?_
    split
    · exact pure trivial
    · exact (argument _).sequence fun _ => pure trivial
  · have cut : ∀ limit : Int64, Tame functions (do
        Action.newList ((← Run.splitText content.toList arguments.head? limit.toInt).map ofText)) fun value =>
          value.Within functions := by
      intro limit
      refine (splitText _ _ _).sequence fun pieces => newList fun piece member => ?_
      obtain ⟨text, _, rfl⟩ := List.mem_map.mp member
      trivial
    refine (counted _ _).sequence fun _ => ?_
    split
    · exact (integerArgument _).sequence cut
    · exact (given _).sequence cut
  · refine (counted _ _).sequence fun _ => (itemsOf first).sequence fun items => ?_
    exact (joinedTexts 0 items).sequence fun _ => pure trivial
  · refine (counted _ _).sequence fun _ => (argument _).sequence fun _ => ?_
    exact (argument _).sequence fun _ => pure trivial
  · exact (counted _ _).sequence fun _ => (argument _).sequence fun _ => pure trivial
  · exact (counted _ _).sequence fun _ => (argument _).sequence fun _ => pure trivial
  · refine (counted _ _).sequence fun _ => (argument _).sequence fun part => ?_
    split <;> exact pure trivial
  · exact (counted _ _).sequence fun _ => (argument _).sequence fun _ => pure trivial
  · exact (counted _ _).sequence fun _ => pure trivial
  · exact noAttribute _ _

/-- The items of a value that is taken apart into a number of them, if there are as many. -/
def itemsOfCount (expected : Nat) (items : List Value) : Except RuntimeError (List Value) :=
  if expected < items.length then .error (.value (.tooManyToUnpack expected))
  else if items.length < expected then .error (.value (.notEnoughToUnpack expected items.length))
  else .ok items

theorem unpacked {value : Value} (within : value.Within functions) (expected : Nat) :
    Tame functions (Run.unpacked value expected) fun items => AllWithin functions items := by
  refine ofItems within (itemsOfCount expected) (fun heap items after found => ?_)
    (fun heap none => by simp only [Run.unpacked, none]) (fun items bound => ?_)
    (typeError value .notUnpackable)
  · simp only [Run.unpacked, found]
    unfold itemsOfCount
    split
    · rfl
    · split <;> rfl
  · unfold itemsOfCount
    split
    · trivial
    · split
      · trivial
      · exact bound

theorem augmented (op : Script.BinaryOp) {current operand : Value}
    (currentWithin : current.Within functions) (operandWithin : operand.Within functions) :
    Tame functions (Run.augmented op current operand) fun value => value.Within functions := by
  unfold Run.augmented
  split
  · refine (itemsOf operandWithin).bind fun extra more => ?_
    refine (modifyList _ fun items bound => ?_).sequence fun _ => pure currentWithin
    rw [Array.toList_append, List.toList_toArray]
    exact List.forall_mem_append.mpr ⟨bound, more⟩
  · exact binary op currentWithin operandWithin

theorem optionalText (parameter default : String) (argument : Option Value) :
    Tame functions (Run.optionalText parameter default argument) fun _ => True := by
  unfold Run.optionalText
  split
  · exact pure trivial
  · exact pure trivial
  · exact pure trivial
  · exact typeError _ _

end Action.Tame

end Stepwise.Run
