import Stepwise.Proofs.Effects
import Stepwise.Proofs.Ordering.Retention
import Stepwise.Proofs.Sorting.Merging
import Stepwise.Run.Interpreter

/-!
The best item and the first one of a sorted list.

`min` and `max` go through the items once and keep the first of those whose scores tie, while sorting
merges halves.  Both have the same item in front if scoring the items leaves alone what the heap holds:
`min` and `max` compare scores before the later ones are known, and sorting compares them afterwards.
-/

namespace Stepwise.Run

open Effect

namespace Scored

variable {heap : Heap} {depth : Nat} {descending : Bool} {best entry : Scored} {entries : List Scored}

/-- Whether an entry is the first of the best ones: ahead of all before it, and not behind any after
it. -/
def IsFirst (heap : Heap) (depth : Nat) (descending : Bool) (entries : List Scored) (best : Scored) :
    Prop :=
  ∃ front back, entries = front ++ best :: back ∧
    (∀ entry ∈ front, best.ahead heap depth descending entry = true) ∧
    ∀ entry ∈ back, entry.ahead heap depth descending best = false

theorem isFirst_singleton (entry : Scored) : IsFirst heap depth descending [entry] entry :=
  ⟨[], [], rfl, nofun, nofun⟩

theorem IsFirst.mem (first : IsFirst heap depth descending entries best) : best ∈ entries := by
  obtain ⟨front, back, rfl, -⟩ := first
  exact List.mem_append_cons_self

section

variable {all : List Scored} (ranked : Ranked heap depth (all.map score))

include ranked

theorem IsFirst.not_ahead (first : IsFirst heap depth descending entries best)
    (included : entries ⊆ all) (member : entry ∈ entries) :
    entry.ahead heap depth descending best = false := by
  have isEntry := included first.mem
  obtain ⟨front, back, rfl, before, behind⟩ := first
  rcases List.mem_append.mp member with inFront | inBack
  · exact ahead_asymm ranked isEntry (included member) (before entry inFront)
  rcases List.mem_cons.mp inBack with rfl | inBack
  · exact ahead_irrefl ranked isEntry
  · exact behind entry inBack

/-- With one more entry the first of the best ones stays, unless the new one is ahead of it. -/
theorem IsFirst.push (first : IsFirst heap depth descending entries best)
    (included : entries ++ [entry] ⊆ all) :
    IsFirst heap depth descending (entries ++ [entry])
      (if entry.ahead heap depth descending best then entry else best) := by
  obtain ⟨inAll, isNew⟩ := List.append_subset.mp included
  have isEntry : entry ∈ all := isNew List.mem_cons_self
  cases better : entry.ahead heap depth descending best with
  | true =>
      refine ⟨entries, [], rfl, fun other member => ?_, nofun⟩
      refine (ahead_or_ahead ranked isEntry (inAll member) (inAll first.mem) better).resolve_right ?_
      rw [first.not_ahead ranked inAll member]
      exact Bool.false_ne_true
  | false =>
      obtain ⟨front, back, rfl, before, behind⟩ := first
      refine ⟨front, back ++ [entry], by simp, before, fun other member => ?_⟩
      rcases List.mem_append.mp member with inBack | isLast
      · exact behind other inBack
      · exact List.mem_singleton.mp isLast ▸ better

theorem IsFirst.head?_eq (first : IsFirst heap depth descending all best) {sorted : List Scored}
    (perm : sorted.Perm all) (ordered : InOrder heap depth descending sorted)
    (stable : sorted.filter (ties heap depth best) = all.filter (ties heap depth best)) :
    sorted.head? = some best := by
  have inside : best ∈ sorted := perm.mem_iff.mpr first.mem
  cases sorted with
  | nil => cases inside
  | cons head rest =>
      have isHead : head ∈ all := perm.subset List.mem_cons_self
      have notBehind : best.ahead heap depth descending head = false := by
        rcases List.mem_cons.mp inside with rfl | inRest
        · exact ahead_irrefl ranked isHead
        · exact List.rel_of_pairwise_cons ordered inRest
      have notAhead := first.not_ahead ranked (List.Subset.refl all) isHead
      have tied : best.ties heap depth head = true :=
        (ties_iff descending).mpr ⟨Bool.eq_false_iff.mp notBehind, Bool.eq_false_iff.mp notAhead⟩
      have tiedToo : best.ties heap depth best = true := by
        have alone : ¬ best.ahead heap depth descending best = true :=
          Bool.eq_false_iff.mp (ahead_irrefl ranked first.mem)
        exact (ties_iff descending).mpr ⟨alone, alone⟩
      obtain ⟨front, back, rfl, before, -⟩ := first
      have none : front.filter (ties heap depth best) = [] := by
        refine List.filter_eq_nil_iff.mpr fun entry member same => ?_
        exact ((ties_iff descending).mp same).1 (before entry member)
      rw [List.filter_cons_of_pos tied, List.filter_append, none, List.nil_append,
        List.filter_cons_of_pos tiedToo] at stable
      exact congrArg some (List.cons.inj stable).1

end

end Scored

variable {σ : Type} {call : Caller σ} {key : Option Value} {machine after : Machine σ}
  {items : List Value} {entries : List Scored}

/-- What scoring items one after the other comes to, and the machine after it, if each score is found,
is on the heap then, and finding it leaves alone what the heap held. -/
inductive Scores (call : Caller σ) (key : Option Value) :
    Machine σ → List Value → List Scored → Machine σ → Prop where
  | nil (machine : Machine σ) : Scores call key machine [] [] machine
  | cons {machine middle after : Machine σ} {item : Value} {entry : Scored} {rest : List Value}
      {entries : List Scored} :
      scored call key item machine = some (.ok entry, middle) → entry.score.Placed middle.heap →
        machine.heap.Retains middle.heap → Scores call key middle rest entries after →
          Scores call key machine (item :: rest) (entry :: entries) after

namespace Scores

theorem retains (scores : Scores call key machine items entries after) :
    machine.heap.Retains after.heap := by
  induction scores with
  | nil machine => exact .refl machine.heap
  | cons _ _ keeps _ inductionHypothesis => exact keeps.trans inductionHypothesis

theorem scoredAll_eq (scores : Scores call key machine items entries after) :
    scoredAll call key items machine = some (.ok entries, after) := by
  induction scores with
  | nil machine => rfl
  | cons first _ _ _ inductionHypothesis =>
      simp only [scoredAll, bind_apply, first, inductionHypothesis, pure_apply]

end Scores

theorem scoreLess_apply {a b : Scored} {depth : Nat} (first : a.score.Placed machine.heap)
    (second : b.score.Placed machine.heap) (keeps : machine.heap.Retains after.heap)
    {order : Option Ordering}
    (compared : Query.order after.heap depth "<" a.score b.score = pure order) :
    scoreLess depth a b machine =
      some (.ok (a.score.lessThan after.heap depth b.score), machine) := by
  have same := keeps.order_eq depth first second
  have now : Query.less machine.heap depth a.score b.score =
      pure (a.score.lessThan after.heap depth b.score) := by
    rw [Query.order_eq_pure_iff, Value.Ordered, same] at compared
    rw [Query.less_eq (Query.order_eq_pure_iff.mpr compared), Value.lessThan, Value.lessThan, same]
  simp only [scoreLess, onHeap_apply, Action.ask, now]
  rfl

theorem bestOf_cons (depth : Nat) (largest : Bool) (best : Scored) (item : Value)
    (rest : List Value) :
    bestOf call depth largest key (some best) (item :: rest) =
      scored call key item >>= fun entry =>
        (if largest then scoreLess depth best entry else scoreLess depth entry best) >>= fun better =>
          bestOf call depth largest key (some (if better then entry else best)) rest := by
  cases largest <;> rfl

theorem Scores.bestOf_eq (scores : Scores call key machine items entries after)
    {depth : Nat} {largest : Bool} {seen : List Scored} {best : Scored}
    (ranked : Ranked after.heap depth ((seen ++ entries).map Scored.score))
    (first : Scored.IsFirst after.heap depth largest seen best)
    (placed : best.score.Placed machine.heap) :
    ∃ found, bestOf call depth largest key (some best) items machine = some (.ok (some found), after) ∧
      Scored.IsFirst after.heap depth largest (seen ++ entries) found := by
  induction scores generalizing seen best with
  | nil machine => exact ⟨best, rfl, by rwa [List.append_nil]⟩
  | @cons machine middle after item entry rest entries finds placedToo keeps others
      inductionHypothesis =>
      have stays := placed.mono keeps
      have included : seen ++ [entry] ⊆ seen ++ entry :: entries := by simp
      have isBest := included (List.mem_append_left _ first.mem)
      have isEntry : entry ∈ seen ++ entry :: entries := List.mem_append_cons_self
      have isScore {entry : Scored} {all : List Scored} (member : entry ∈ all) :
          entry.score ∈ all.map Scored.score := List.mem_map_of_mem member
      have better : (if largest then scoreLess depth best entry else scoreLess depth entry best) middle =
          some (.ok (entry.ahead after.heap depth largest best), middle) := by
        obtain ⟨_, upwards⟩ := ranked.compared _ (isScore isBest) _ (isScore isEntry)
        obtain ⟨_, downwards⟩ := ranked.compared _ (isScore isEntry) _ (isScore isBest)
        cases largest with
        | true => exact scoreLess_apply stays placedToo others.retains upwards
        | false => exact scoreLess_apply placedToo stays others.retains downwards
      have pushed := first.push ranked included
      obtain ⟨found, ends, isFirst⟩ := inductionHypothesis
        (by rwa [List.append_assoc]) pushed
        (by split <;> assumption)
      refine ⟨found, ?_, by rwa [List.append_assoc] at isFirst⟩
      simp only [bestOf_cons, bind_apply, finds, better, ends]

theorem Scores.exists_bestOf_eq (scores : Scores call key machine items entries after)
    (inhabited : items ≠ []) {depth : Nat}
    (ranked : Ranked after.heap depth (entries.map Scored.score)) (largest : Bool) :
    ∃ best, bestOf call depth largest key none items machine = some (.ok (some best), after) ∧
      Scored.IsFirst after.heap depth largest entries best := by
  cases scores with
  | nil => exact absurd rfl inhabited
  | @cons _ middle _ item entry rest entries finds placed keeps others =>
      have one : Scored.IsFirst after.heap depth largest [entry] entry := Scored.isFirst_singleton entry
      obtain ⟨best, ends, isFirst⟩ := others.bestOf_eq ranked one placed
      exact ⟨best, by simp only [bestOf, bind_apply, finds, ends], isFirst⟩

def keyKeyword (key : Option Value) : Keywords := (key.map fun key => ("key", key)).toList

def reverseKeyword (descending : Bool) : Keywords :=
  if descending then [("reverse", .bool true)] else []

theorem takeKey_keyKeyword (key : Option Value) (others : Keywords)
    (absent : others.lookup "key" = none) :
    takeKey (keyKeyword key ++ others) = (key.filter fun key => !key.isNone, others) := by
  cases key with
  | none =>
      have kept : others.eraseP (fun keyword => keyword.1 == "key") = others := by
        refine List.eraseP_of_forall_not fun keyword member same => ?_
        have other := List.lookup_eq_none_iff.mp absent keyword member
        rw [eq_of_beq same] at other
        cases other
      simp [takeKey, takeKeyword, keyKeyword, absent, kept]
  | some key => simp [takeKey, takeKeyword, keyKeyword]

theorem onHeap_itemsOf {heap : Heap} {source : Value}
    (found : source.items? machine.heap = some (items, heap)) :
    onHeap (Action.itemsOf source) machine = some (.ok items, { machine with heap := heap }) := by
  rw [onHeap_apply, Action.itemsOf, found]
  rfl

theorem sortedItems_apply (scores : Scores call key machine items entries after) {depth : Nat}
    {descending : Bool} {sorted : List Scored}
    (ends : Scored.sort after.heap depth descending entries = pure sorted) :
    sortedItems call depth key ((reverseKeyword descending).lookup "reverse") items machine =
      some (.ok (sorted.map Scored.item), after) := by
  have asked : onHeap (Action.ask fun heap => Scored.sort heap depth descending entries) after =
      some (.ok sorted, after) := by
    rw [onHeap_apply, Action.ask, ends]
    rfl
  cases descending with
  | true =>
      have turned : view (Value.truthy · (.bool true)) machine = some (.ok true, machine) := rfl
      simp only [sortedItems, reverseKeyword, if_true, List.lookup_cons_self, bind_apply, turned,
        scores.scoredAll_eq, asked, pure_apply]
  | false =>
      simp only [sortedItems, reverseKeyword, if_false, Bool.false_eq_true, List.lookup_nil, pure_bind,
        bind_apply, scores.scoredAll_eq, asked, pure_apply]

theorem onHeap_newList (values : List Value) (machine : Machine σ) :
    onHeap (Action.newList values) machine = some (.ok (.list machine.heap.lists.size),
      { machine with heap := (machine.heap.newList values.toArray).2 }) :=
  onHeap_apply _ _

section

variable {heap : Heap} {source : Value} {depth : Nat}
  (found : source.items? machine.heap = some (items, heap))

include found

theorem extreme_apply {largest : Bool} {best : Scored}
    (ends : bestOf call depth largest (key.filter fun key => !key.isNone) none items
      { machine with heap := heap } = some (.ok (some best), after)) :
    extreme call depth largest [source] (keyKeyword key) machine = some (.ok best.item, after) := by
  have keywords := takeKey_keyKeyword key [] rfl
  rw [List.append_nil] at keywords
  have named (name : String) : onHeap (noKeywords name []) = (pure () : Effect σ Unit) := rfl
  have counted (name : String) : onHeap (argumentCount name 1 1 none) = (pure () : Effect σ Unit) :=
    rfl
  simp only [extreme, keywords, takeKeyword, List.lookup_nil, List.eraseP_nil, named,
    List.length_singleton, counted, bind_apply, pure_apply, onHeap_itemsOf found, ends]

theorem sortedList_apply
    (scores : Scores call (key.filter fun key => !key.isNone) { machine with heap := heap } items
      entries after) {descending : Bool} {sorted : List Scored}
    (ends : Scored.sort after.heap depth descending entries = pure sorted) :
    sortedList call depth [source] (keyKeyword key ++ reverseKeyword descending) machine =
      some (.ok (.list after.heap.lists.size),
        { after with heap := (after.heap.newList (sorted.map Scored.item).toArray).2 }) := by
  have keywords := takeKey_keyKeyword key (reverseKeyword descending) (by cases descending <;> rfl)
  have none : (reverseKeyword descending).eraseP (fun keyword => keyword.1 == "reverse") = [] := by
    cases descending <;> rfl
  have counted : onHeap (plainArguments .sorted [source] [] 1 (some 1)) =
      (pure () : Effect σ Unit) := rfl
  simp only [sortedList, keywords, takeKeyword, none, counted, bind_apply, pure_apply,
    List.head?_cons, Option.getD_some, onHeap_itemsOf found, sortedItems_apply scores ends,
    onHeap_newList]

end

/-- `min` and `max` give back the very item that is in front of the sorted list, which is sorted in
reverse for `max`: also of several whose scores tie. -/
theorem extreme_eq_first_sorted {call : Caller σ} {machine after : Machine σ} {heap : Heap}
    {source : Value} {items : List Value} {entries : List Scored} {depth : Nat} (largest : Bool)
    (key : Option Value) (found : source.items? machine.heap = some (items, heap))
    (inhabited : items ≠ [])
    (scores : Scores call (key.filter fun key => !key.isNone) { machine with heap := heap } items
      entries after)
    (ranked : Ranked after.heap depth (entries.map Scored.score)) :
    ∃ best sorted final,
      applyBuiltin call depth (if largest then .max else .min) [source] (keyKeyword key) machine =
        some (.ok best, after) ∧
      applyBuiltin call depth .sorted [source] (keyKeyword key ++ reverseKeyword largest) machine =
        some (.ok (.list sorted), final) ∧
      (final.heap.list sorted)[0]? = some best := by
  obtain ⟨best, ends, isFirst⟩ := scores.exists_bestOf_eq inhabited ranked largest
  obtain ⟨sorted, sorts, perm, ordered, stable⟩ :=
    Scored.sort_eq largest ranked (List.Subset.refl entries)
  have inFront := isFirst.head?_eq ranked perm ordered (stable best isFirst.mem)
  have selects := extreme_apply found ends
  refine ⟨best.item, _, _, ?_, sortedList_apply found scores sorts, ?_⟩
  · cases largest with
    | true => exact selects
    | false => exact selects
  · rw [Heap.list_newList, List.getElem?_toArray, List.getElem?_map, ← List.head?_eq_getElem?, inFront]
    rfl

/-- Of four numbers two tie for the greatest and two for the least size. -/
theorem extreme_eq_first_sorted_ties :
    let call := (level (⟨0, [], 1000, none⟩ : Environment Unit) 1).call
    let heap := (Heap.empty.newList #[.int (-1), .int 2, .int 1, .int (-2)]).2
    let machine := Machine.start heap .empty ()
    ∃ best sorted final,
      applyBuiltin call 1 .max [.list 0] [("key", .builtin .abs)] machine =
        some (.ok best, machine) ∧
      applyBuiltin call 1 .sorted [.list 0] [("key", .builtin .abs), ("reverse", .bool true)] machine =
        some (.ok (.list sorted), final) ∧
      (final.heap.list sorted)[0]? = some best := by
  intro call heap machine
  have sized (value size : Int64) {rest : List Value} {entries : List Scored}
      (finds : scored call (some (.builtin .abs)) (.int value) machine =
        some (.ok ⟨.int size, .int value⟩, machine))
      (others : Scores call (some (.builtin .abs)) machine rest entries machine) :
      Scores call (some (.builtin .abs)) machine (.int value :: rest)
        (⟨.int size, .int value⟩ :: entries) machine :=
    .cons finds (.of_onHeap trivial rfl) (.refl heap) others
  have scores := sized (-1) 1 rfl (sized 2 2 rfl (sized 1 1 rfl (sized (-2) 2 rfl (.nil machine))))
  have ranked : Ranked heap 1 [.int 1, .int 2, .int 1, .int 2] := by
    refine .of_floatFree ?_ ?_
    · simp [Value.FloatFree]
    · simp [Value.Ordered, Value.order, Value.number?]
  have found : (Value.list 0).items? machine.heap =
      some ([.int (-1), .int 2, .int 1, .int (-2)], heap) := rfl
  exact extreme_eq_first_sorted true (some (.builtin .abs)) found (List.cons_ne_nil _ _) scores ranked

end Stepwise.Run
