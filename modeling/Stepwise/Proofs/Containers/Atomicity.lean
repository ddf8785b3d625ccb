import Stepwise.Proofs.Containers.Reads
import Stepwise.Run.Interpreter

/-!
Operations on lists and dicts that fail.

Every method, assignment to an item and extension in place reads all that it needs before it changes
the container, so that nothing has changed if it fails.  Only sorting may run code of the script before
that, with its key.
-/

namespace Stepwise

open Run

/-- Two heaps in which a list has the same items, or a dict the same entries in the same order. -/
def Value.SameContents (before after : Heap) : Value → Prop
  | .list ref => after.list ref = before.list ref
  | .dict ref => after.dict ref = before.dict ref
  | _ => True

theorem Heap.Alike.sameContents {before after : Heap} (alike : before.Alike after) (value : Value) :
    value.SameContents before after := by
  cases value with
  | list ref => exact alike.list ref
  | dict ref => exact alike.dict ref
  | _ => trivial

namespace Run

namespace Action.Atomic

theorem listMethod (depth ref : Nat) (method : String) (arguments : List Value) :
    Atomic (Run.listMethod depth ref method arguments) := by
  have counted {β : Type} {least most : Nat} {next : Unit → Action β}
      (rest : ∀ checked, Atomic (next checked)) :
      Atomic (Run.argumentCount method arguments.length least (some most) >>= next) :=
    bind (Looks.argumentCount _ _ _ _).reads rest
  unfold Run.listMethod
  refine bind (.observe _) fun items => ?_
  dsimp only
  split
  · exact counted fun _ => updateThen _ _
  · have popped (index : Int64) : Atomic (do
        let position ← Run.itemAt (position? index items.size) .pop
        let item ← Run.itemAt items[position]? .pop
        Action.update fun heap => heap.modifyList ref fun items => items.eraseIdxIfInBounds position
        return item) :=
      bind (.itemAt _ _) fun _ => bind (.itemAt _ _) fun _ => updateThen _ _
    refine counted fun _ => checked (.throw _) ?_
    split
    · exact bind (.pure _) popped
    · exact bind (.integerArgument _) popped
  · exact counted fun _ => bind (.integerArgument _) fun _ => updateThen _ _
  · exact counted fun _ => bind (.itemsOf _) fun _ => updateThen _ _
  · refine counted fun _ => bind (.firstWhere? _ _ _) fun found => ?_
    split
    · exact updateThen _ _
    · exact Reads.atomic (.throw _)
  · refine counted fun _ => bind (.firstWhere? _ _ _) fun found => ?_
    split
    · exact Reads.atomic (.pure _)
    · exact bind (.observe _) fun _ => Reads.atomic (.throw _)
  · exact counted fun _ => bind (.countEqual _ _ _) fun _ => Reads.atomic (.pure _)
  · exact counted fun _ => updateThen _ _
  · exact counted fun _ => change _
  · exact counted fun _ => updateThen _ _
  · exact Reads.atomic (.noAttribute _ _)

theorem dictMethod (ref : Nat) (method : String) (arguments : List Value) (keywords : Keywords) :
    Atomic (Run.dictMethod ref method arguments keywords) := by
  have counted {β : Type} {least most : Nat} {next : Unit → Action β}
      (rest : ∀ checked, Atomic (next checked)) :
      Atomic (Run.argumentCount method arguments.length least (some most) >>= next) :=
    bind (Looks.argumentCount _ _ _ _).reads rest
  unfold Run.dictMethod
  refine checked (Looks.noKeywords _ _).reads (bind (.observe _) fun dict => ?_)
  dsimp only
  split
  · exact counted fun _ => bind (.keyOf _) fun _ => Reads.atomic (.pure _)
  · exact counted fun _ => bind (.change fun heap => .keysToValues heap _) fun _ => change _
  · exact counted fun _ => change _
  · exact counted fun _ => bind (.entryTuples _) fun _ => change _
  · refine counted fun _ => bind (.keyOf _) fun key => ?_
    split
    · exact updateThen _ _
    · exact Reads.atomic (.pure _)
    · exact bind (.observe _) fun _ => Reads.atomic (.throw _)
  · refine counted fun _ => ?_
    split
    · exact bind (.pure _) fun _ => updateThen _ _
    · exact bind (.updated _ _) fun _ => updateThen _ _
  · exact counted fun _ => change _
  · exact Reads.atomic (.noAttribute _ _)

theorem setItem (container index value : Value) : Atomic (Run.setItem container index value) := by
  unfold Run.setItem
  split
  · exact bind (.indexOf _ _) fun _ => bind (.observe _) fun _ => bind (.itemAt _ _) fun _ =>
      update _
  · exact bind (.keyOf _) fun _ => update _
  · exact Reads.atomic (.typeError _ _)

theorem extend (ref : Nat) (operand : Value) : Atomic (Run.augmented .add (.list ref) operand) :=
  bind (.itemsOf operand) fun _ => updateThen _ _

end Action.Atomic

variable {σ : Type} {call : Caller σ} {ref depth : Nat} {machine after : Machine σ}

/-- Whether the calls of a key function, one item after the other, leave a list as it is.  There are
no calls behind one that fails. -/
def KeepsList (call : Caller σ) (ref : Nat) (key : Value) : List Value → Machine σ → Prop
  | [], _ => True
  | item :: rest, machine =>
      ∀ result after, call key [item] [] machine = some (result, after) →
        after.heap.list ref = machine.heap.list ref ∧
          ∀ score, result = .ok score → KeepsList call ref key rest after

/-- Scoring leaves a list as it is if the key function does; without one nothing is called. -/
theorem scoredAll_list {key : Option Value} {items : List Value}
    (keeps : ∀ function, key = some function → KeepsList call ref function items machine)
    {result : Except RuntimeError (List Scored)}
    (ended : scoredAll call key items machine = some (result, after)) :
    after.heap.list ref = machine.heap.list ref := by
  induction items generalizing machine after result with
  | nil =>
      cases ended
      rfl
  | cons item rest inductionHypothesis =>
      rw [scoredAll] at ended
      -- the call for the first item, and what it leaves to the others
      have first {scored : Except RuntimeError Scored} {middle : Machine σ}
          (began : Run.scored call key item machine = some (scored, middle)) :
          middle.heap.list ref = machine.heap.list ref ∧ ∀ entry, scored = .ok entry →
            ∀ function, key = some function → KeepsList call ref function rest middle := by
        cases key with
        | none =>
            cases began
            exact ⟨rfl, nofun⟩
        | some function =>
            rcases Effect.bind_ended began with ⟨error, failed, rfl⟩ | ⟨score, last, called, made⟩
            · exact ⟨(keeps function rfl _ _ failed).1, nofun⟩
            · cases made
              obtain ⟨same, others⟩ := keeps function rfl _ _ called
              refine ⟨same, fun _ _ _ known => ?_⟩
              cases known
              exact others score rfl
      rcases Effect.bind_ended ended with ⟨error, failed, -⟩ | ⟨entry, middle, began, ended⟩
      · exact (first failed).1
      · obtain ⟨same, others⟩ := first began
        have behind {result : Except RuntimeError (List Scored)} {last : Machine σ}
            (scored : scoredAll call key rest middle = some (result, last)) :=
          inductionHypothesis (others entry rfl) scored
        rcases Effect.bind_ended ended with ⟨error, failed, -⟩ | ⟨entries, last, reached, made⟩
        · exact (behind failed).trans same
        · cases made
          exact (behind reached).trans same

theorem scoredAll_none {items : List Value} {result : Except RuntimeError (List Scored)}
    (ended : scoredAll call none items machine = some (result, after)) : after = machine := by
  induction items generalizing result with
  | nil =>
      cases ended
      rfl
  | cons item rest inductionHypothesis =>
      rw [scoredAll] at ended
      rcases Effect.bind_ended ended with ⟨error, impossible, -⟩ | ⟨entry, middle, scored, ended⟩
      · cases impossible
      cases scored
      rcases Effect.bind_ended ended with ⟨error, failed, -⟩ | ⟨entries, last, reached, made⟩
      · exact inductionHypothesis failed
      · cases made
        exact inductionHypothesis reached

/-- A part of a run on the heap that is atomic leaves lists and dicts as they are if it fails. -/
theorem onHeap_atomic {α : Type} {action : Action α} (atomic : action.Atomic) {error : RuntimeError}
    (failed : Effect.onHeap action machine = some (.error error, after)) :
    machine.heap.Alike after.heap := by
  rw [Effect.onHeap_apply] at failed
  obtain ⟨⟨result, heap⟩, ran, same⟩ := Option.map_eq_some_iff.mp failed
  cases same
  exact atomic _ _ _ ran

theorem onHeap_looks {α : Type} {action : Action α} (looks : action.Looks)
    {result : Except RuntimeError α} (ended : Effect.onHeap action machine = some (result, after)) :
    after = machine := by
  rw [Effect.onHeap_apply] at ended
  obtain ⟨⟨answer, heap⟩, ran, same⟩ := Option.map_eq_some_iff.mp ended
  obtain rfl := looks _ _ _ ran
  cases same
  rfl

theorem sortedItems_error {key reverse : Option Value} {items : List Value} {error : RuntimeError}
    (failed : sortedItems call depth key reverse items machine = some (.error error, after)) :
    ∃ result, scoredAll call key items machine = some (result, after) := by
  have sorting {descending : Bool}
      (failed : (do
        let entries ← scoredAll call key items
        let entries ← Effect.onHeap
          (Action.ask fun heap => Scored.sort heap depth descending entries)
        return entries.map Scored.item : Effect σ (List Value)) machine = some (.error error, after)) :
      ∃ result, scoredAll call key items machine = some (result, after) := by
    rcases Effect.bind_ended failed with ⟨_, scored, -⟩ | ⟨entries, last, scored, comparing⟩
    · exact ⟨_, scored⟩
    rcases Effect.bind_ended comparing with ⟨_, incomparable, -⟩ | ⟨_, _, _, impossible⟩
    · obtain rfl := onHeap_looks (.ask _) incomparable
      exact ⟨_, scored⟩
    · cases impossible
  unfold sortedItems at failed
  cases reverse with
  | none =>
      simp only [pure_bind] at failed
      exact sorting failed
  | some reverse =>
      rcases Effect.bind_ended failed with ⟨_, impossible, -⟩ | ⟨_, _, looked, failed⟩
      · cases impossible
      cases looked
      exact sorting failed

theorem sortList_error {arguments : List Value} {keywords : Keywords} {error : RuntimeError}
    (failed : sortList call depth ref arguments keywords machine = some (.error error, after)) :
    after = machine ∨ ∃ result,
      scoredAll call (takeKey keywords).1 (machine.heap.list ref).toList machine =
        some (result, after) := by
  unfold sortList at failed
  rcases Effect.bind_ended failed with ⟨_, refused, -⟩ | ⟨_, _, checked, counting⟩
  · exact .inl (onHeap_looks (.noKeywords _ _) refused)
  obtain rfl := onHeap_looks (.noKeywords _ _) checked
  rcases Effect.bind_ended counting with ⟨_, refused, -⟩ | ⟨_, _, counted, looking⟩
  · exact .inl (onHeap_looks (.argumentCount _ _ _ _) refused)
  obtain rfl := onHeap_looks (.argumentCount _ _ _ _) counted
  rcases Effect.bind_ended looking with ⟨_, impossible, -⟩ | ⟨_, _, looked, sorting⟩
  · cases impossible
  cases looked
  rcases Effect.bind_ended sorting with ⟨_, unsorted, -⟩ | ⟨_, _, _, impossible⟩
  · exact .inr (sortedItems_error unsorted)
  · cases impossible

/-- A method of a list or a dict that fails has changed no list and no dict, unless it sorts with a
key; and then it has done nothing but call the key function. -/
theorem applyMethod_error {receiver : Value}
    (container : receiver = .list ref ∨ receiver = .dict ref) {method : String}
    {arguments : List Value} {keywords : Keywords} {error : RuntimeError}
    (failed : applyMethod call depth receiver method arguments keywords machine =
      some (.error error, after)) :
    machine.heap.Alike after.heap ∨
      receiver = .list ref ∧ method = "sort" ∧ ∃ key result, (takeKey keywords).1 = some key ∧
        scoredAll call key (machine.heap.list ref).toList machine = some (result, after) := by
  rcases container with rfl | rfl
  · unfold applyMethod at failed
    simp only at failed
    split at failed
    next sorts =>
      rcases sortList_error failed with rfl | ⟨result, scored⟩
      · exact .inl (.refl _)
      cases given : (takeKey keywords).1 with
      | none =>
          rw [given] at scored
          exact .inl (scoredAll_none scored ▸ .refl _)
      | some key =>
          rw [given] at scored
          exact .inr ⟨rfl, beq_iff_eq.mp sorts, key, result, rfl, scored⟩
    next =>
      have atomic : Action.Atomic (do
          noKeywords method keywords
          listMethod depth ref method arguments) :=
        .bind (Action.Looks.noKeywords _ _).reads fun _ => .listMethod _ _ _ _
      exact .inl (onHeap_atomic atomic failed)
  · exact .inl (onHeap_atomic (.dictMethod _ _ _ _) failed)

/-- An operation on a list or a dict that fails changes neither its items nor its entries: no method,
not with the container among its own arguments, no assignment to an item and no extension in place.
Sorting with a key calls the key function first, so that the list is the same if those calls leave it
alone; every other failure leaves all lists and dicts as they were. -/
theorem failure_keepsContents (call : Caller σ) (depth ref : Nat) (receiver : Value)
    (container : receiver = .list ref ∨ receiver = .dict ref) :
    (∀ method arguments keywords machine error after,
      applyMethod call depth receiver method arguments keywords machine =
          some (.error error, after) →
        ((method = "sort" → (takeKey keywords).1 = none) → machine.heap.Alike after.heap) ∧
        ((∀ key, receiver = .list ref → method = "sort" → (takeKey keywords).1 = some key →
            KeepsList call ref key (machine.heap.list ref).toList machine) →
          receiver.SameContents machine.heap after.heap)) ∧
      (∀ index value heap error after, setItem receiver index value heap = some (.error error, after) →
        heap.Alike after ∧ receiver.SameContents heap after) ∧
      ∀ operand heap error after, augmented .add (.list ref) operand heap = some (.error error, after) →
        heap.Alike after ∧ after.list ref = heap.list ref := by
  refine ⟨?_, fun index value heap error after failed => ?_, fun operand heap error after failed => ?_⟩
  · intro method arguments keywords machine error after failed
    rcases applyMethod_error container failed with alike | ⟨rfl, rfl, key, result, given, scored⟩
    · exact ⟨fun _ => alike, fun _ => alike.sameContents receiver⟩
    · refine ⟨fun without => ?_, fun keeps => ?_⟩
      · rw [without rfl] at given
        cases given
      · refine scoredAll_list (fun function known => ?_) scored
        cases known
        exact keeps key rfl rfl given
  · have alike := Action.Atomic.setItem receiver index value heap error after failed
    exact ⟨alike, alike.sameContents receiver⟩
  · have alike := Action.Atomic.extend ref operand heap error after failed
    exact ⟨alike, alike.list ref⟩

def mixed : Machine Unit :=
  .start { Heap.empty with lists := #[#[.str "ab", .int 3]] } .empty ()

/-- Sorting that list by length fails at the number, and the list is as before. -/
theorem failure_keepsContents_mixed :
    ∃ error after, applyMethod (level ⟨0, [], 5, none⟩ 1).call 1 (.list 0) "sort" []
        [("key", .builtin .len)] mixed = some (.error error, after) ∧
      after.heap.list 0 = #[.str "ab", .int 3] := by
  refine ⟨_, _, rfl, ?_⟩
  refine ((failure_keepsContents (level ⟨0, [], 5, none⟩ 1).call 1 0 (.list 0) (.inl rfl)).1
    "sort" [] [("key", .builtin .len)] mixed _ _ rfl).2 fun key _ _ given => ?_
  cases given
  intro result after called
  cases called
  refine ⟨rfl, fun score _ result after called => ?_⟩
  cases called
  exact ⟨rfl, nofun⟩

end Run

end Stepwise
