import Mathlib.Data.List.Induction
import Mathlib.Data.List.Range
import Stepwise.Proofs.Containers.InsertionOrder

/-!
What the history of a dict says about its entries.

A history lists the changes that were made to a dict: values that were put under keys, and keys that
were dropped.  It says which value is under a key now, and in which order the keys stand: in that of the
changes that brought them in.  Any table that keeps the order of insertion and goes through the changes
has exactly those entries, and so has a dict.
-/

namespace Stepwise

namespace Dict

variable {α : Type}

inductive Change (α : Type) where
  | put (key : Key) (value : α)
  /-- The key is not there afterwards; it need not have been there. -/
  | drop (key : Key)

namespace Change

def key : Change α → Key
  | .put key _ => key
  | .drop key => key

def value? : Change α → Option α
  | .put _ value => some value
  | .drop _ => none

def drops (key : Key) : Change α → Bool
  | .put .. => false
  | .drop dropped => dropped.equal key

def apply (dict : Dict α) : Change α → Dict α
  | .put key value => dict.insert key value
  | .drop key => dict.erase key

end Change

/-- The value that the latest change about a key left there. -/
def current? (history : List (Change α)) (key : Key) : Option α :=
  (history.reverse.find? fun change => change.key.equal key).bind Change.value?

/-- The key that a change at a position has brought in and that has been there ever since, with the
value that is under it now. -/
def standing? (history : List (Change α)) (index : Nat) : Option (Key × α) :=
  match history[index]? with
  | some (.put key _) =>
      if (current? (history.take index) key).isSome ||
          (history.drop (index + 1)).any (Change.drops key) then none
      else (current? history key).map fun value => (key, value)
  | _ => none

/-- The keys that stand, in the order in which they came in, and their values. -/
def standing (history : List (Change α)) : List (Key × α) :=
  (List.range history.length).filterMap (standing? history)

def replay (history : List (Change α)) : Dict α := history.foldl Change.apply .empty

def HistoryFloatFree (history : List (Change α)) : Prop :=
  ∀ change ∈ history, change.key.FloatFree

variable {history : List (Change α)} {key : Key} {value : α}

theorem forall_concat {keys : Key → Prop} {change : Change α} :
    (∀ made ∈ history ++ [change], keys made.key) ↔
      (∀ made ∈ history, keys made.key) ∧ keys change.key := by
  rw [List.forall_mem_append, List.forall_mem_singleton]

theorem historyFloatFree_concat {change : Change α} :
    HistoryFloatFree (history ++ [change]) ↔ HistoryFloatFree history ∧ change.key.FloatFree :=
  forall_concat

theorem current?_concat (change : Change α) :
    current? (history ++ [change]) key =
      if change.key.equal key then change.value? else current? history key := by
  rw [current?, List.reverse_concat, List.find?_cons]
  cases change.key.equal key <;> rfl

/-- A value stays under a key, or another one comes there, as long as the key is not dropped. -/
theorem current?_isSome_append {later : List (Change α)} (present : (current? history key).isSome)
    (kept : later.any (Change.drops key) = false) : (current? (history ++ later) key).isSome := by
  induction later using List.reverseRecOn with
  | nil => rwa [List.append_nil]
  | append_singleton early change inductionHypothesis =>
      rw [List.any_append, Bool.or_eq_false_iff] at kept
      rw [← List.append_assoc, current?_concat]
      split
      next about =>
        cases change with
        | put other value => rfl
        | drop dropped =>
            rw [List.any_cons, Change.drops, show dropped.equal key = true from about] at kept
            cases kept.2
      next => exact inductionHypothesis kept.1

section

variable {keys : Key → Prop} (coherent : Coherent keys)

include coherent

theorem current?_isSome_of_put (known : keys key) {index : Nat}
    (put : history[index]? = some (.put key value))
    (kept : (history.drop (index + 1)).any (Change.drops key) = false) :
    (current? history key).isSome := by
  rw [← List.take_append_drop (index + 1) history]
  refine current?_isSome_append ?_ kept
  rw [List.take_add_one, put, Option.toList_some, current?_concat, Change.key,
    if_pos (coherent.equal_self known)]
  rfl

/-- A later value replaces the one of a key that stands, and leaves the key as it came in. -/
theorem standing?_concat_put (known : ∀ change ∈ history, keys change.key) {index : Nat}
    (inside : index < history.length) :
    standing? (history ++ [.put key value]) index =
      (standing? history index).map (overwritten key value) := by
  rw [standing?, standing?, List.getElem?_append_left inside,
    List.take_append_of_le_length (Nat.le_of_lt inside), List.drop_append_of_le_length inside]
  cases found : history[index]? with
  | none => rfl
  | some change =>
      cases change with
      | drop dropped => rfl
      | put own first =>
          have knownOwn : keys own := known _ (List.mem_of_getElem? found)
          simp only [List.any_append, List.any_cons, List.any_nil, Change.drops, Bool.or_false]
          split
          · rfl
          next stands =>
            rw [Bool.or_eq_true, not_or, Bool.not_eq_true, Bool.not_eq_true] at stands
            obtain ⟨old, kept⟩ := Option.isSome_iff_exists.mp
              (current?_isSome_of_put coherent knownOwn found stands.2)
            rw [current?_concat, kept, Change.key, Option.map_some, Option.map_some, overwritten]
            split <;> rfl

/-- The keys that stand after a value was put: those from before, and behind them the key of the value
if it was not there. -/
theorem standing_concat_put (known : ∀ change ∈ history, keys change.key) (knownKey : keys key) :
    standing (history ++ [.put key value]) =
      (standing history).map (overwritten key value) ++
        if (current? history key).isSome then [] else [(key, value)] := by
  have last : standing? (history ++ [.put key value]) history.length =
      if (current? history key).isSome then none else some (key, value) := by
    rw [standing?, List.getElem?_concat_length, List.take_left, List.drop_of_length_le (by simp)]
    simp only [List.any_nil, Bool.or_false]
    rw [current?_concat, Change.key, if_pos (coherent.equal_self knownKey)]
    rfl
  rw [standing, List.length_append, List.length_singleton, List.range_succ, List.filterMap_append,
    standing, List.map_filterMap]
  congr 1
  · refine List.filterMap_congr fun index member => ?_
    rw [standing?_concat_put coherent known (List.mem_range.mp member)]
  · rw [List.filterMap_cons, last, List.filterMap_nil]
    split
    next none =>
      split at none
      next present => rw [if_pos present]
      next => cases none
    next entry some =>
      split at some
      next => cases some
      next absent =>
        cases some
        rw [if_neg absent]

end

theorem standing?_concat_drop {index : Nat} (inside : index < history.length) :
    standing? (history ++ [.drop key]) index =
      (standing? history index).filter fun entry => !key.equal entry.1 := by
  rw [standing?, standing?, List.getElem?_append_left inside,
    List.take_append_of_le_length (Nat.le_of_lt inside), List.drop_append_of_le_length inside]
  cases history[index]? with
  | none => rfl
  | some change =>
      cases change with
      | drop dropped => rfl
      | put own first =>
          simp only [List.any_append, List.any_cons, List.any_nil, Change.drops, Bool.or_false,
            current?_concat, Change.key]
          by_cases dropped : key.equal own = true
          · simp only [dropped, Bool.or_true, if_true]
            split
            · rfl
            · cases current? history own with
              | none => rfl
              | some value => simp only [Option.map_some, Option.filter_some, dropped]; rfl
          · rw [Bool.not_eq_true] at dropped
            simp only [dropped, Bool.or_false, Bool.false_eq_true, if_false]
            split
            · rfl
            · cases current? history own with
              | none => rfl
              | some value => simp only [Option.map_some, Option.filter_some, dropped]; rfl

theorem standing_concat_drop :
    standing (history ++ [.drop key]) =
      (standing history).filter fun entry => !key.equal entry.1 := by
  have last : standing? (history ++ [.drop key]) history.length = none := by
    rw [standing?, List.getElem?_concat_length]
  rw [standing, List.length_append, List.length_singleton, List.range_succ, List.filterMap_append,
    List.filterMap_cons, last, List.filterMap_nil, List.append_nil, standing, List.filter_filterMap]
  refine List.filterMap_congr fun index member => ?_
  rw [standing?_concat_drop (List.mem_range.mp member)]

end Dict

namespace InsertionOrdered

variable {keys : Key → Prop} {α τ : Type} (ordered : InsertionOrdered keys α τ)
  {history : List (Dict.Change α)} {key : Key}

def apply (table : τ) : Dict.Change α → τ
  | .put key value => ordered.insert table key value
  | .drop key => ordered.erase table key

def replay (history : List (Dict.Change α)) : τ := history.foldl ordered.apply ordered.empty

theorem replay_concat (change : Dict.Change α) :
    ordered.replay (history ++ [change]) = ordered.apply (ordered.replay history) change := by
  rw [replay, List.foldl_append, List.foldl_cons, List.foldl_nil, replay]

theorem replay_holds (known : ∀ change ∈ history, keys change.key) :
    ordered.Holds (ordered.replay history) := by
  induction history using List.reverseRecOn with
  | nil => exact ordered.empty_holds
  | append_singleton early change inductionHypothesis =>
      obtain ⟨before, knownKey⟩ := Dict.forall_concat.mp known
      rw [replay_concat]
      cases change with
      | put own value => exact (inductionHypothesis before).insert knownKey value
      | drop own => exact (inductionHypothesis before).erase knownKey

variable (coherent : Coherent keys)

include coherent

theorem get?_replay (known : ∀ change ∈ history, keys change.key) (knownKey : keys key) :
    ordered.get? (ordered.replay history) key = Dict.current? history key := by
  induction history using List.reverseRecOn with
  | nil =>
      rw [replay, List.foldl_nil, ordered.get?_eq ordered.empty_holds knownKey,
        ordered.entries_empty]
      rfl
  | append_singleton early change inductionHypothesis =>
      obtain ⟨before, knownOwn⟩ := Dict.forall_concat.mp known
      have holds := ordered.replay_holds before
      rw [replay_concat, Dict.current?_concat, ← inductionHypothesis before]
      cases change with
      | put own value => exact holds.get?_insert coherent knownOwn knownKey
      | drop own => exact holds.get?_erase coherent knownOwn knownKey

theorem entries_replay (known : ∀ change ∈ history, keys change.key) :
    ordered.entries (ordered.replay history) = Dict.standing history := by
  induction history using List.reverseRecOn with
  | nil => exact ordered.entries_empty
  | append_singleton early change inductionHypothesis =>
      obtain ⟨before, knownOwn⟩ := Dict.forall_concat.mp known
      have holds := ordered.replay_holds before
      have entries := inductionHypothesis before
      rw [replay_concat]
      cases change with
      | put own value =>
          have knownKey : keys own := knownOwn
          rw [apply, ordered.entries_insert holds knownKey, ordered.get?_replay coherent before knownKey,
            Dict.standing_concat_put coherent before knownKey, entries]
      | drop own =>
          have knownKey : keys own := knownOwn
          rw [apply, ordered.entries_erase holds knownKey, Dict.standing_concat_drop, entries]

end InsertionOrdered

namespace Dict

variable {α : Type} {history : List (Change α)} {key : Key} {value : α}

theorem replay_eq {keys : Key → Prop} (coherent : Coherent keys) (history : List (Change α)) :
    (insertionOrdered coherent).replay history = replay history := by
  have apply_eq : (insertionOrdered (α := α) coherent).apply = Change.apply := by
    funext dict change
    cases change <;> rfl
  rw [InsertionOrdered.replay, apply_eq]
  rfl

theorem get?_replay (free : HistoryFloatFree history) (keyFree : key.FloatFree) :
    (replay history).get? key = current? history key := by
  rw [← replay_eq floatFree_coherent]
  exact (insertionOrdered floatFree_coherent).get?_replay floatFree_coherent free keyFree

theorem entries_replay (free : HistoryFloatFree history) :
    (replay history).entries = standing history := by
  rw [← replay_eq floatFree_coherent]
  exact (insertionOrdered floatFree_coherent).entries_replay floatFree_coherent free

theorem standing_apart (free : HistoryFloatFree history) :
    (standing history).Pairwise fun a b => a.1.equal b.1 = false := by
  have holds := (insertionOrdered (α := α) floatFree_coherent).replay_holds free
  rw [replay_eq] at holds
  rw [← entries_replay free]
  refine (replay history).distinct.imp_of_mem fun {a b} first second apart => ?_
  rw [Key.equal_comm, ← floatFree_coherent.finds_eq (holds a first) (holds b second), apart]

/-- A later value for a key that is there leaves all keys as they are and where they are, the key
itself as it came in. -/
theorem keys_concat_put (free : HistoryFloatFree history) (keyFree : key.FloatFree)
    (present : (current? history key).isSome) :
    (standing (history ++ [.put key value])).map Prod.fst = (standing history).map Prod.fst := by
  rw [standing_concat_put floatFree_coherent free keyFree, if_pos present, List.append_nil,
    List.map_map]
  exact List.map_congr_left fun entry _ => overwritten_fst key value entry

end Dict

end Stepwise
