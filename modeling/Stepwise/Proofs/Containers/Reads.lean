import Stepwise.Proofs.Twins.Methods

/-!
Steps that leave lists and dicts alone.

A step that only reads may advance an iterator or use up the tag of a tuple, but no list and no dict
changes.  A step that is atomic changes none of them if it fails; it reads first and changes something
only when nothing can fail any more.
-/

namespace Stepwise

open Run

/-- Two heaps with the same lists and the same dicts. -/
structure Heap.Alike (before after : Heap) : Prop where
  lists : after.lists = before.lists
  dicts : after.dicts = before.dicts

namespace Heap.Alike

variable {first second third : Heap}

theorem refl (heap : Heap) : heap.Alike heap := ⟨rfl, rfl⟩

theorem trans (early : first.Alike second) (late : second.Alike third) : first.Alike third :=
  ⟨late.lists.trans early.lists, late.dicts.trans early.dicts⟩

theorem list (alike : first.Alike second) (ref : Nat) : second.list ref = first.list ref := by
  rw [Heap.list, Heap.list, alike.lists]

theorem dict (alike : first.Alike second) (ref : Nat) : second.dict ref = first.dict ref := by
  rw [Heap.dict, Heap.dict, alike.dicts]

theorem toValue (heap : Heap) (key : Key) : heap.Alike (key.toValue heap).2 := by
  rw [key.toValue_snd heap]
  exact ⟨rfl, rfl⟩

theorem keysToValues (heap : Heap) (keys : List Key) :
    heap.Alike (Stepwise.keysToValues heap keys).2 := by
  rw [keysToValues_snd heap keys]
  exact ⟨rfl, rfl⟩

theorem walk? {heap after : Heap} {value : Value} {walk : Walk}
    (begun : value.walk? heap = some (walk, after)) : heap.Alike after := by
  cases value with
  | dict ref =>
      cases begun
      exact keysToValues heap _
  | list _ | tuple _ _ | str _ | range _ | iterator _ =>
      cases begun
      exact refl heap
  | none | bool _ | int _ | float _ | function _ | builtin _ => cases begun

theorem drain (heap : Heap) (walk : Walk) : heap.Alike (walk.drain heap).2 := by
  cases walk with
  | own iterator => exact refl heap
  | shared ref => exact ⟨rfl, rfl⟩

theorem items? {heap after : Heap} {value : Value} {items : List Value}
    (found : value.items? heap = some (items, after)) : heap.Alike after := by
  obtain ⟨⟨walk, middle⟩, begun, drained⟩ := Option.map_eq_some_iff.mp found
  have walked := drain middle walk
  rw [show walk.drain middle = (items, after) from drained] at walked
  exact (Alike.walk? begun).trans walked

end Heap.Alike

namespace Run.Action

variable {α β : Type}

def Looks (action : Action α) : Prop :=
  ∀ heap result after, action heap = some (result, after) → after = heap

def Reads (action : Action α) : Prop :=
  ∀ heap result after, action heap = some (result, after) → heap.Alike after

def Atomic (action : Action α) : Prop :=
  ∀ heap error after, action heap = some (.error error, after) → heap.Alike after

theorem Looks.reads {action : Action α} (looks : Looks action) : Reads action :=
  fun heap result after ended => looks heap result after ended ▸ .refl heap

theorem Reads.atomic {action : Action α} (reads : Reads action) : Atomic action :=
  fun heap error after failed => reads heap (.error error) after failed

/-- A sequence that ends has read first, and ends with that or with its second part. -/
theorem Reads.bind_ended {action : Action α} {next : α → Action β} (reads : Reads action)
    {heap after : Heap} {result : Except RuntimeError β}
    (ended : (action >>= next) heap = some (result, after)) :
    heap.Alike after ∨
      ∃ value middle, heap.Alike middle ∧ next value middle = some (result, after) := by
  rw [bind_apply] at ended
  cases began : action heap with
  | none => rw [began] at ended; cases ended
  | some reached =>
      obtain ⟨first, middle⟩ := reached
      have alike := reads heap first middle began
      rw [began] at ended
      cases first with
      | ok value => exact .inr ⟨value, middle, alike, ended⟩
      | error error =>
          cases ended
          exact .inl alike

theorem bind_ok {action : Action α} {next : α → Action β} {heap after : Heap} {result : β}
    (ended : (action >>= next) heap = some (.ok result, after)) :
    ∃ value middle, action heap = some (.ok value, middle) ∧
      next value middle = some (.ok result, after) := by
  rw [bind_apply] at ended
  cases began : action heap with
  | none => rw [began] at ended; cases ended
  | some reached =>
      obtain ⟨first, middle⟩ := reached
      rw [began] at ended
      cases first with
      | ok value => exact ⟨value, middle, rfl, ended⟩
      | error error => cases ended

theorem keyOf_ok {value : Value} {key : Key} {heap after : Heap}
    (ended : keyOf value heap = some (.ok key, after)) : value.toKey = .ok key ∧ after = heap := by
  rw [keyOf] at ended
  cases known : value.toKey with
  | ok found =>
      rw [known] at ended
      cases ended
      exact ⟨rfl, rfl⟩
  | error part =>
      rw [known] at ended
      cases ended

theorem updatePair_ok {position : Nat} {element first value : Value} {heap after : Heap}
    (ended : updatePair position element heap = some (.ok (first, value), after)) :
    element.items? heap = some ([first, value], after) := by
  unfold updatePair at ended
  split at ended
  next => cases ended
  next found =>
    cases ended
    exact found
  next => cases ended

theorem itemsOf_ok {value : Value} {items : List Value} {heap after : Heap}
    (ended : itemsOf value heap = some (.ok items, after)) :
    value.items? heap = some (items, after) := by
  unfold itemsOf at ended
  split at ended
  next found =>
    cases ended
    exact found
  next => cases ended

namespace Looks

theorem ask (query : Heap → Query α) : Looks (Action.ask query) := by
  intro heap result after ended
  obtain ⟨answer, -, same⟩ := Option.map_eq_some_iff.mp ended
  cases same
  rfl

theorem noKeywords (function : String) (keywords : Keywords) :
    Looks (Run.noKeywords function keywords) := by
  intro heap result after ended
  cases keywords <;> cases ended <;> rfl

theorem argumentCount (function : String) (given least : Nat) (most : Option Nat) :
    Looks (Run.argumentCount function given least most) := by
  intro heap result after ended
  unfold Run.argumentCount at ended
  split at ended <;> cases ended <;> rfl

end Looks

theorem argumentCount_ok {function : String} {given least : Nat} {most : Option Nat}
    {heap after : Heap} (ended : argumentCount function given least most heap = some (.ok (), after)) :
    least ≤ given := by
  unfold argumentCount at ended
  split at ended
  next fits => exact fits.1
  next => cases ended

namespace Reads

variable {action : Action α}

theorem pure (value : α) : Reads (Pure.pure value) := by
  intro heap result after ended
  cases ended
  exact .refl heap

theorem throw (error : RuntimeError) : Reads (MonadExcept.throw error : Action α) := by
  intro heap result after ended
  cases ended
  exact .refl heap

theorem bind {next : α → Action β} (reads : Reads action) (rest : ∀ value, Reads (next value)) :
    Reads (action >>= next) := by
  intro heap result after ended
  rcases reads.bind_ended ended with alike | ⟨value, middle, alike, ended⟩
  · exact alike
  · exact alike.trans (rest value middle result after ended)

theorem observe (look : Heap → α) : Reads (Action.observe look) := by
  intro heap result after ended
  cases ended
  exact .refl heap

theorem ask (query : Heap → Query α) : Reads (Action.ask query) := (Looks.ask query).reads

theorem change {step : Heap → α × Heap} (alike : ∀ heap : Heap, heap.Alike (step heap).2) :
    Reads (Action.change step) := by
  intro heap result after ended
  cases ended
  exact alike heap

theorem typeError (value : Value) (problem : String → TypeProblem) :
    Reads (Action.typeError value problem : Action α) :=
  (observe _).bind fun _ => throw _

theorem keyOf (value : Value) : Reads (Action.keyOf value) := by
  unfold Action.keyOf
  split
  · exact pure _
  · exact typeError _ _

theorem itemsOf (value : Value) : Reads (Action.itemsOf value) := by
  intro heap result after ended
  unfold Action.itemsOf at ended
  cases found : value.items? heap with
  | none =>
      rw [found] at ended
      exact typeError value .notIterable heap result after ended
  | some taken =>
      rw [found] at ended
      cases ended
      exact .items? found

theorem integerArgument (value : Value) : Reads (Run.integerArgument value) := by
  unfold Run.integerArgument
  split
  · exact pure _
  · exact typeError _ _

theorem indexOf (noun : String) (index : Value) : Reads (Run.indexOf noun index) := by
  unfold Run.indexOf
  split
  · exact pure _
  · exact typeError _ _

theorem itemAt (item : Option α) (problem : IndexProblem) : Reads (Run.itemAt item problem) := by
  unfold Run.itemAt
  split
  · exact pure _
  · exact throw _

theorem noAttribute (object : Value) (name : String) :
    Reads (Run.noAttribute object name : Action α) :=
  (observe _).bind fun _ => throw _

theorem firstWhere? (test : Value → Heap → Query Bool) (position : Nat) (values : List Value) :
    Reads (Run.firstWhere? test position values) := by
  induction values generalizing position with
  | nil => exact pure _
  | cons value rest inductionHypothesis =>
      refine (ask _).bind fun found => ?_
      cases found with
      | true => exact pure _
      | false => exact inductionHypothesis (position + 1)

theorem countEqual (depth : Nat) (item : Value) (values : List Value) :
    Reads (Run.countEqual depth item values) := by
  induction values with
  | nil => exact pure _
  | cons value rest inductionHypothesis =>
      exact (ask _).bind fun _ => inductionHypothesis.bind fun _ => pure _

theorem entryTuples (entries : List (Key × Value)) : Reads (Run.entryTuples entries) := by
  induction entries with
  | nil => exact pure _
  | cons entry rest inductionHypothesis =>
      refine (change fun heap => .toValue heap entry.1).bind fun key => ?_
      refine (change fun heap => ⟨rfl, rfl⟩).bind fun tuple => ?_
      exact inductionHypothesis.bind fun _ => pure _

theorem updatePair (position : Nat) (element : Value) : Reads (Run.updatePair position element) := by
  intro heap result after ended
  unfold Run.updatePair at ended
  split at ended
  · cases ended
    exact .refl heap
  · rename_i found
    cases ended
    exact .items? found
  · rename_i found
    cases ended
    exact .items? found

theorem updateWithPairs (entries : Dict Value) (position : Nat) (elements : List Value) :
    Reads (Run.updateWithPairs entries position elements) := by
  induction elements generalizing entries position with
  | nil => exact pure _
  | cons element rest inductionHypothesis =>
      refine (updatePair position element).bind fun pair => (keyOf _).bind fun key => ?_
      exact inductionHypothesis _ (position + 1)

theorem updated (entries : Dict Value) (source : Value) : Reads (Run.updated entries source) := by
  unfold Run.updated
  split
  · exact (observe _).bind fun _ => pure _
  · exact (itemsOf _).bind fun _ => updateWithPairs _ _ _

end Reads

namespace Atomic

theorem bind {action : Action α} {next : α → Action β} (reads : Reads action)
    (rest : ∀ value, Atomic (next value)) : Atomic (action >>= next) := by
  intro heap error after failed
  rcases reads.bind_ended failed with alike | ⟨value, middle, alike, failed⟩
  · exact alike
  · exact alike.trans (rest value middle error after failed)

theorem change (step : Heap → α × Heap) : Atomic (Action.change step) := nofun

theorem update (step : Heap → Heap) : Atomic (Action.update step) := nofun

theorem updateThen (step : Heap → Heap) (value : α) :
    Atomic (do
      Action.update step
      return value) := nofun

theorem thenReturn {action : Action α} (atomic : Atomic action) (value : β) :
    Atomic (do
      let _ ← action
      return value) := by
  intro heap error after failed
  rw [bind_apply] at failed
  cases began : action heap with
  | none => rw [began] at failed; cases failed
  | some reached =>
      obtain ⟨first, middle⟩ := reached
      rw [began] at failed
      cases first with
      | ok value => cases failed
      | error error =>
          cases failed
          exact atomic heap _ _ began

/-- A check that is only made under a condition. -/
theorem checked {condition : Prop} [Decidable condition] {check : Action Unit}
    {next : Unit → Action β} (reads : Reads check) (rest : Atomic (next ())) :
    Atomic (if condition then check >>= next else next ()) := by
  by_cases holds : condition
  · rw [if_pos holds]
    exact bind reads fun _ => rest
  · rw [if_neg holds]
    exact rest

end Atomic

end Run.Action

end Stepwise
