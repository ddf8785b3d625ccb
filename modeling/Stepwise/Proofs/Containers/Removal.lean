import Stepwise.Proofs.Containers.Reads
import Stepwise.Proofs.Ordering.Retention

/-!
Removing an item from a list by its value.

The first item that is equal to the given one is taken out.  The list is held while its items are
compared, so that a comparison that has to read it breaks the program off: no value and no error comes
of it.  That takes a list that is inside the given value or inside one of its own items; for all others
the comparison is the ordinary one.
-/

namespace Stepwise

variable {heap : Heap} {held depth : Nat} {a b : Value}

theorem allEqual_of_answers {equal other : Value → Value → Option Bool} {as bs : List Value}
    {answer : Bool} (agree : ∀ a b answer, equal a b = some answer → other a b = some answer)
    (known : allEqual equal as bs = some answer) : allEqual other as bs = some answer := by
  induction as generalizing bs with
  | nil => cases bs <;> exact known
  | cons a as inductionHypothesis =>
      cases bs with
      | nil => exact known
      | cons b bs =>
          rw [allEqual] at known ⊢
          cases first : equal a b with
          | none =>
              rw [first] at known
              cases known
          | some same =>
              rw [first] at known
              rw [agree a b same first]
              cases same with
              | true => exact inductionHypothesis known
              | false => exact known

theorem allFound_of_answers {equal other : Value → Value → Option Bool} {dict : Dict Value}
    {entries : List (Key × Value)} {answer : Bool}
    (agree : ∀ a b answer, equal a b = some answer → other a b = some answer)
    (known : allFound equal dict entries = some answer) :
    allFound other dict entries = some answer := by
  induction entries with
  | nil => exact known
  | cons entry rest inductionHypothesis =>
      obtain ⟨key, value⟩ := entry
      rw [allFound] at known ⊢
      cases found : dict.get? key with
      | none =>
          rw [found] at known
          exact known
      | some stored =>
          simp only [found] at known ⊢
          cases first : equal value stored with
          | none =>
              rw [first] at known
              cases known
          | some same =>
              rw [first] at known
              rw [agree value stored same first]
              cases same with
              | true => exact inductionHypothesis known
              | false => exact known

namespace Value

/-- More answers about what is inside two values leave the answer about the two as it is. -/
theorem equalBy_of_answers {inner other : Value → Value → Option Bool} {answer : Bool}
    (agree : ∀ a b answer, inner a b = some answer → other a b = some answer)
    (known : equalBy heap inner a b = some answer) : equalBy heap other a b = some answer := by
  unfold equalBy at known ⊢
  split at known
  · exact known
  -- Only lists, tuples and dicts ask for the values inside.
  split at known <;> try exact known
  all_goals try dsimp only at known ⊢
  all_goals split_ifs at known ⊢ <;> try exact known
  · exact allEqual_of_answers agree known
  · exact allEqual_of_answers agree known
  · exact allFound_of_answers agree known

theorem equal_of_equalBeside {answer : Bool}
    (known : equalBeside heap held depth a b = some answer) : equal heap depth a b = some answer := by
  induction depth generalizing a b answer with
  | zero => cases known
  | succ depth inductionHypothesis =>
      rw [equalBeside] at known
      split at known
      · cases known
      · exact equalBy_of_answers (fun _ _ _ => inductionHypothesis) known

def Reaches (heap : Heap) (value inner : Value) : Prop :=
  Relation.ReflTransGen (fun outer part => part ∈ outer.parts heap) value inner

theorem needs_eq_false (apart : ¬ a.Reaches heap (.list held))
    (apartToo : ¬ b.Reaches heap (.list held)) : needs held a b = false := by
  unfold needs
  split
  · next first second =>
      have differs : first ≠ held := fun same => apart (same ▸ .refl)
      have differsToo : second ≠ held := fun same => apartToo (same ▸ .refl)
      simp [differs, differsToo]
  · rfl

/-- A held list that is inside neither of two values does not matter to their equality. -/
theorem equalBeside_eq (apart : ¬ a.Reaches heap (.list held))
    (apartToo : ¬ b.Reaches heap (.list held)) :
    equalBeside heap held depth a b = equal heap depth a b := by
  induction depth generalizing a b with
  | zero => rfl
  | succ depth inductionHypothesis =>
      rw [equalBeside, needs_eq_false apart apartToo, if_neg Bool.false_ne_true, equal]
      exact equalBy_congr fun item inside other insideToo =>
        inductionHypothesis (fun reached => apart (.head inside reached))
          fun reached => apartToo (.head insideToo reached)

end Value

theorem Heap.modifyList_congr {ref : Nat} {change other : Array Value → Array Value}
    (same : change (heap.list ref) = other (heap.list ref)) :
    heap.modifyList ref change = heap.modifyList ref other := by
  rw [Heap.modifyList, Heap.modifyList]
  congr 1
  refine Array.ext_getElem? fun index => ?_
  rw [Array.getElem?_modify, Array.getElem?_modify]
  split
  · next here =>
      subst here
      rw [Heap.list] at same
      cases found : heap.lists[ref]? with
      | none => rfl
      | some items =>
          rw [found, Option.getD_some] at same
          rw [Option.map_some, Option.map_some, same]
  · rfl

theorem Heap.modifyList_eraseIdx {ref : Nat} {before after : List Value} {value : Value}
    (split : (heap.list ref).toList = before ++ value :: after) :
    heap.modifyList ref (fun items => items.eraseIdxIfInBounds before.length) =
      heap.modifyList ref fun _ => (before ++ after).toArray := by
  refine Heap.modifyList_congr (Array.toList_inj.mp ?_)
  rw [Array.toList_eraseIdxIfInBounds, split, List.eraseIdx_append_of_length_le (Nat.le_refl _),
    Nat.sub_self, List.eraseIdx_cons_zero, List.toList_toArray]

namespace Run

variable {ref : Nat} {item : Value}

/-- How the removal of an item from a list ends. -/
inductive Removal (heap : Heap) (depth ref : Nat) (item : Value) :
    Option (Except RuntimeError Value × Heap) → Prop where
  /-- The first equal item is taken out. -/
  | takes {before after : List Value} {value : Value} :
      (heap.list ref).toList = before ++ value :: after →
        (∀ other ∈ before, Value.equalBeside heap ref depth other item = some false) →
          Value.equalBeside heap ref depth value item = some true →
            Removal heap depth ref item
              (some (.ok .none, heap.modifyList ref fun _ => (before ++ after).toArray))
  | misses :
      (∀ other ∈ (heap.list ref).toList, Value.equalBeside heap ref depth other item = some false) →
      Removal heap depth ref item (some (.error (.value .removedMissing), heap))
  /-- An item comes first about which equality has no answer. -/
  | breaks {before after : List Value} {value : Value} :
      (heap.list ref).toList = before ++ value :: after →
        (∀ other ∈ before, Value.equalBeside heap ref depth other item = some false) →
          Value.equalBeside heap ref depth value item = none → Removal heap depth ref item none

theorem firstWhere?_stops {test : Value → Heap → Query Bool} {answer : Value → Option Bool}
    (asked : ∀ value, test value heap = Query.ofAnswer (answer value)) {before after : List Value}
    {value : Value} (failed : ∀ other ∈ before, answer other = some false)
    (stops : answer value ≠ some false) (position : Nat) :
    firstWhere? test position (before ++ value :: after) heap =
      (answer value).map fun _ => (.ok (some (position + before.length)), heap) := by
  induction before generalizing position with
  | nil =>
      rw [List.nil_append, firstWhere?, Action.bind_apply, Action.ask, asked]
      cases found : answer value with
      | none => rfl
      | some passed =>
          cases passed with
          | true => rfl
          | false => exact absurd found stops
  | cons other before inductionHypothesis =>
      obtain ⟨first, others⟩ := List.forall_mem_cons.mp failed
      rw [List.cons_append, firstWhere?, Action.bind_apply, Action.ask, asked, first]
      refine (inductionHypothesis others (position + 1)).trans ?_
      rw [List.length_cons, Nat.add_right_comm, Nat.add_assoc]

theorem firstWhere?_misses {test : Value → Heap → Query Bool} {answer : Value → Option Bool}
    (asked : ∀ value, test value heap = Query.ofAnswer (answer value)) {values : List Value}
    (failed : ∀ other ∈ values, answer other = some false) (position : Nat) :
    firstWhere? test position values heap = some (.ok none, heap) := by
  induction values generalizing position with
  | nil => rfl
  | cons value rest inductionHypothesis =>
      obtain ⟨first, others⟩ := List.forall_mem_cons.mp failed
      rw [firstWhere?, Action.bind_apply, Action.ask, asked, first]
      exact inductionHypothesis others (position + 1)

theorem exists_first (answer : Value → Option Bool) (values : List Value) :
    (∀ other ∈ values, answer other = some false) ∨ ∃ before value after,
      values = before ++ value :: after ∧ (∀ other ∈ before, answer other = some false) ∧
        answer value ≠ some false := by
  induction values with
  | nil => exact .inl (List.forall_mem_nil _)
  | cons value rest inductionHypothesis =>
      by_cases failed : answer value = some false
      · rcases inductionHypothesis with all | ⟨before, stopped, after, rfl, others, stops⟩
        · exact .inl (List.forall_mem_cons.mpr ⟨failed, all⟩)
        · exact .inr ⟨value :: before, stopped, after, rfl,
            List.forall_mem_cons.mpr ⟨failed, others⟩, stops⟩
      · exact .inr ⟨[], value, rest, rfl, List.forall_mem_nil _, failed⟩

/-- A removal takes out the first equal item, or fails and leaves the list as it is, or breaks off where
equality has no answer. -/
theorem listMethod_remove (heap : Heap) (depth ref : Nat) (item : Value) :
    Removal heap depth ref item (listMethod depth ref "remove" [item] heap) := by
  have asked (value : Value) : Query.equalBeside heap ref depth value item =
      Query.ofAnswer (Value.equalBeside heap ref depth value item) := rfl
  -- what the method does with the position that the search comes to
  obtain ⟨next, method, misses, takes⟩ : ∃ next : Option Nat → Action Value,
      listMethod depth ref "remove" [item] heap =
        (firstWhere? (fun value heap => Query.equalBeside heap ref depth value item) 0
          (heap.list ref).toList >>= next) heap ∧
      next none heap = some (.error (.value .removedMissing), heap) ∧
      ∀ position, next (some position) heap = some (.ok .none,
        heap.modifyList ref fun items => items.eraseIdxIfInBounds position) :=
    ⟨_, rfl, rfl, fun _ => rfl⟩
  rw [method, Action.bind_apply]
  rcases exists_first (fun value => Value.equalBeside heap ref depth value item)
    (heap.list ref).toList with missing | ⟨before, value, after, split, failed, stops⟩
  · rw [firstWhere?_misses asked missing]
    simp only [misses]
    exact .misses missing
  · rw [split, firstWhere?_stops asked failed stops]
    cases found : Value.equalBeside heap ref depth value item with
    | none => exact .breaks split failed found
    | some passed =>
        cases passed with
        | false => exact absurd found stops
        | true =>
            simp only [Option.map_some, takes, Nat.zero_add, Heap.modifyList_eraseIdx split]
            exact .takes split failed found

/-- A removal that ends has taken out the first item that is equal to the given one, or has found none
and left the list as it is. -/
theorem listMethod_remove_ended {result : Except RuntimeError Value} {after : Heap}
    (ended : listMethod depth ref "remove" [item] heap = some (result, after)) :
    (∃ before value rest, (heap.list ref).toList = before ++ value :: rest ∧
      (∀ other ∈ before, Value.equal heap depth other item = some false) ∧
      Value.equal heap depth value item = some true ∧
      result = .ok .none ∧ after = heap.modifyList ref fun _ => (before ++ rest).toArray) ∨
    (∀ other ∈ (heap.list ref).toList, Value.equal heap depth other item = some false) ∧
      result = .error (.value .removedMissing) ∧ after = heap := by
  have removal := listMethod_remove heap depth ref item
  rw [ended] at removal
  cases removal with
  | takes split failed found =>
      exact .inl ⟨_, _, _, split, fun other before => Value.equal_of_equalBeside (failed other before),
        Value.equal_of_equalBeside found, rfl, rfl⟩
  | misses failed =>
      exact .inr ⟨fun other inside => Value.equal_of_equalBeside (failed other inside), rfl, rfl⟩

/-- A removal ends if the list is inside neither its items nor the given one, and equality always has
an answer. -/
theorem listMethod_remove_ends
    (apart : ∀ value ∈ (heap.list ref).toList, ¬ value.Reaches heap (.list ref))
    (apartToo : ¬ item.Reaches heap (.list ref))
    (answers : ∀ value ∈ (heap.list ref).toList,
      ∃ answer, Value.equal heap depth value item = some answer) :
    ∃ result after, listMethod depth ref "remove" [item] heap = some (result, after) := by
  have removal := listMethod_remove heap depth ref item
  generalize listMethod depth ref "remove" [item] heap = outcome at removal
  cases removal with
  | takes | misses => exact ⟨_, _, rfl⟩
  | @breaks before after value split failed missing =>
      have inside : value ∈ (heap.list ref).toList :=
        split ▸ List.mem_append_right _ List.mem_cons_self
      obtain ⟨answer, known⟩ := answers value inside
      rw [← Value.equalBeside_eq (apart value inside) apartToo, missing] at known
      cases known

/-- `xs = [[1]]` with `xs.remove(xs)`: the item is a list that would have to be compared with `xs`. -/
example : listMethod 5 0 "remove" [.list 0] ⟨#[#[.list 1], #[.int 1]], #[], #[], #[], 0⟩ = none := rfl

end Run

end Stepwise
