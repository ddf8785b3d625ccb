import Stepwise.Proofs.Confinement
import Stepwise.Proofs.Containers.Atomicity
import Stepwise.Proofs.Sorting.Merging

/-!
Sorting a list in place.

The items are taken out of the list before the key function is called, and put back in order when all
scores are known.  So whatever the key function does to the list meanwhile is undone.
-/

namespace Stepwise

theorem Heap.list_modifyList {heap : Heap} {ref : Nat} (inside : ref < heap.lists.size)
    (change : Array Value → Array Value) :
    (heap.modifyList ref change).list ref = change (heap.list ref) := by
  simp [Heap.list, Heap.modifyList, Array.getElem_modify, inside]

theorem Heap.list_of_le {heap : Heap} {ref : Nat} (outside : heap.lists.size ≤ ref) :
    heap.list ref = #[] := by
  rw [Heap.list, Array.getElem?_eq_none outside]
  rfl

namespace Run

variable {σ : Type} {environment : Environment σ} {call : Caller σ} {machine after : Machine σ}
  {depth ref : Nat}

theorem items_of_scoredAll {key : Option Value} {items : List Value} {entries : List Scored}
    (ended : scoredAll call key items machine = some (.ok entries, after)) :
    entries.map Scored.item = items := by
  induction items generalizing machine entries with
  | nil =>
      cases ended
      rfl
  | cons item rest inductionHypothesis =>
      obtain ⟨entry, middle, first, ended⟩ := Effect.bind_ok_iff.mp ended
      obtain ⟨others, last, reached, made⟩ := Effect.bind_ok_iff.mp ended
      have same : entry.item = item := by
        cases key with
        | none =>
            cases first
            rfl
        | some key =>
            obtain ⟨score, _, -, scored⟩ := Effect.bind_ok_iff.mp first
            cases scored
            rfl
      cases made
      rw [List.map_cons, same, inductionHypothesis reached]

theorem answer_of_onHeap {α : Type} {query : Heap → Query α} {answer : α}
    (ended : Effect.onHeap (Action.ask query) machine = some (.ok answer, after)) :
    query machine.heap = pure answer := by
  rw [Effect.onHeap_apply] at ended
  obtain ⟨⟨result, heap⟩, asked, same⟩ := Option.map_eq_some_iff.mp ended
  obtain ⟨found, answered, rest⟩ := Option.map_eq_some_iff.mp asked
  cases rest
  cases same
  exact answered

theorem sortedItems_ok {key reverse : Option Value} {items sorted : List Value}
    (ended : sortedItems call depth key reverse items machine = some (.ok sorted, after)) :
    ∃ entries, scoredAll call key items machine = some (.ok entries, after) ∧ sorted.Perm items := by
  have sorting {descending : Bool}
      (ended : (do
        let entries ← scoredAll call key items
        let entries ← Effect.onHeap
          (Action.ask fun heap => Scored.sort heap depth descending entries)
        return entries.map Scored.item : Effect σ (List Value)) machine = some (.ok sorted, after)) :
      ∃ entries, scoredAll call key items machine = some (.ok entries, after) ∧
        sorted.Perm items := by
    obtain ⟨entries, scored, reached, ended⟩ := Effect.bind_ok_iff.mp ended
    obtain ⟨inOrder, last, asked, made⟩ := Effect.bind_ok_iff.mp ended
    have known := answer_of_onHeap asked
    obtain rfl := onHeap_looks (.ask _) asked
    cases made
    have items := items_of_scoredAll reached
    exact ⟨entries, reached, items ▸ (Scored.perm_of_sort known).map Scored.item⟩
  unfold sortedItems at ended
  cases reverse with
  | none =>
      simp only [pure_bind] at ended
      exact sorting ended
  | some reverse =>
      obtain ⟨_, _, looked, ended⟩ := Effect.bind_ok_iff.mp ended
      cases looked
      exact sorting ended

/-- Sorting a list scores its items and then puts them back in order, in place of what the list holds
by then. -/
theorem sortList_ok {arguments : List Value} {keywords : Keywords} {value : Value}
    (ended : sortList call depth ref arguments keywords machine = some (.ok value, after)) :
    ∃ (entries : List Scored) (scored : Machine σ) (sorted : List Value),
      scoredAll call (takeKey keywords).1 (machine.heap.list ref).toList machine =
          some (.ok entries, scored) ∧
        sorted.Perm (machine.heap.list ref).toList ∧ value = .none ∧
        after = { scored with heap := scored.heap.modifyList ref fun _ => sorted.toArray } := by
  unfold sortList at ended
  obtain ⟨_, _, checked, counting⟩ := Effect.bind_ok_iff.mp ended
  obtain rfl := onHeap_looks (.noKeywords _ _) checked
  obtain ⟨_, _, counted, looking⟩ := Effect.bind_ok_iff.mp counting
  obtain rfl := onHeap_looks (.argumentCount _ _ _ _) counted
  obtain ⟨_, _, looked, sorting⟩ := Effect.bind_ok_iff.mp looking
  cases looked
  obtain ⟨sorted, scored, sorts, storing⟩ := Effect.bind_ok_iff.mp sorting
  obtain ⟨entries, reached, perm⟩ := sortedItems_ok sorts
  obtain ⟨_, _, stored, made⟩ := Effect.bind_ok_iff.mp storing
  cases stored
  cases made
  exact ⟨entries, scored, sorted, reached, perm, rfl, rfl⟩

/-- Whatever the key function does, the list that is sorted stays on the heap while its items are
scored. -/
theorem scoredAll_grows {fuel : Nat} {key : Option Value} {items : List Value}
    {result : Except RuntimeError (List Scored)}
    (ended : scoredAll (level environment fuel).call key items machine = some (result, after)) :
    machine.heap.Grows after.heap :=
  let levels := (confinement environment).correspondence.level fuel
  (levels.scoredAll key items machine result after ended).heap.toGrows

/-- When sorting a list returns, every element that was in the list before the call is in it with the
same multiplicity, and nothing else is, whatever the key function has done to the list meanwhile. -/
theorem sort_keepsElements (environment : Environment σ) (fuel depth ref : Nat)
    {arguments : List Value} {keywords : Keywords} {value : Value}
    (ended : applyMethod (level environment fuel).call depth (.list ref) "sort" arguments keywords
      machine = some (.ok value, after)) :
    value = .none ∧ (after.heap.list ref).toList.Perm (machine.heap.list ref).toList := by
  change sortList _ depth ref arguments keywords machine = _ at ended
  obtain ⟨entries, scored, sorted, reached, perm, rfl, rfl⟩ := sortList_ok ended
  refine ⟨rfl, ?_⟩
  rcases Nat.lt_or_ge ref machine.heap.lists.size with inside | outside
  · have still := Nat.lt_of_lt_of_le inside (scoredAll_grows reached).lists
    rw [Heap.list_modifyList still, List.toList_toArray]
    exact perm
  · -- there is no list of that number, and so nothing to score
    rw [Heap.list_of_le outside, Array.toList_empty] at reached perm ⊢
    cases reached
    have unchanged : (machine.heap.modifyList ref fun _ => sorted.toArray).list ref = #[] :=
      Heap.list_of_le (by simpa [Heap.modifyList] using outside)
    rw [unchanged]

/-- A function that adds 7 to the global list `xs` and gives its argument back. -/
def hoard : Script.Definition :=
  ⟨0, "hoard", [⟨"x", none⟩],
    [.mk 2 false (.expr (.method (.name "xs") "append" [.positional (.int 7)])),
      .mk 3 false (.giveBack (some (.name "x")))], 1, 3, ["x"]⟩

/-- A machine with the list `xs` of 2 and 1, and that function. -/
def hoarding : Machine Unit :=
  .start { Heap.empty with
    lists := #[#[.int 2, .int 1]], functions := #[⟨0, 0, "hoard", []⟩] } ⟨[("xs", .list 0)]⟩ ()

/-- A sort whose key function adds to the list keeps 2 and 1, each of them once. -/
theorem sort_keepsElements_hoarding :
    ∃ value after,
      applyMethod (level ⟨0, [hoard], 5, none⟩ 9).call 9 (.list 0) "sort" []
          [("key", .function 0)] hoarding = some (.ok value, after) ∧
        value = .none ∧ (after.heap.list 0).toList.Perm [.int 2, .int 1] := by
  have returns : (applyMethod (level ⟨0, [hoard], 5, none⟩ 9).call 9 (.list 0) "sort" []
      [("key", .function 0)] hoarding).map (fun ended => failed ended.1) = some false := by
    decide +kernel
  obtain ⟨⟨result, after⟩, ended, returned⟩ := Option.map_eq_some_iff.mp returns
  cases result with
  | error error => cases returned
  | ok value => exact ⟨value, after, ended, sort_keepsElements _ _ _ _ ended⟩

/-- What the key function has added to the list by the end of its last call is gone when the sort
returns. -/
theorem sort_dropsAppended :
    ∃ entries scored value after,
      scoredAll (level ⟨0, [hoard], 5, none⟩ 9).call (some (.function 0))
          (hoarding.heap.list 0).toList hoarding = some (.ok entries, scored) ∧
        (scored.heap.list 0).toList.map Value.index? = [some 2, some 1, some 7, some 7] ∧
        applyMethod (level ⟨0, [hoard], 5, none⟩ 9).call 9 (.list 0) "sort" []
            [("key", .function 0)] hoarding = some (.ok value, after) ∧
        (after.heap.list 0).toList.map Value.index? = [some 1, some 2] := by
  have scores : (scoredAll (level ⟨0, [hoard], 5, none⟩ 9).call (some (.function 0))
      (hoarding.heap.list 0).toList hoarding).map (fun ended =>
        (failed ended.1, (ended.2.heap.list 0).toList.map Value.index?)) =
      some (false, [some 2, some 1, some 7, some 7]) := by
    decide +kernel
  have sorts : (applyMethod (level ⟨0, [hoard], 5, none⟩ 9).call 9 (.list 0) "sort" []
      [("key", .function 0)] hoarding).map (fun ended =>
        (failed ended.1, (ended.2.heap.list 0).toList.map Value.index?)) =
      some (false, [some 1, some 2]) := by
    decide +kernel
  obtain ⟨⟨entries, scored⟩, ran, known⟩ := Option.map_eq_some_iff.mp scores
  obtain ⟨ends, added⟩ := Prod.mk.inj known
  obtain ⟨⟨value, after⟩, sorted, known⟩ := Option.map_eq_some_iff.mp sorts
  obtain ⟨returns, kept⟩ := Prod.mk.inj known
  cases entries with
  | error => cases ends
  | ok entries =>
      cases value with
      | error => cases returns
      | ok value => exact ⟨entries, scored, value, after, ran, added, sorted, kept⟩

end Run

end Stepwise
