import Mathlib.Logic.Relation
import Stepwise.Proofs.Confinement
import Stepwise.Proofs.Containers.Reads

/-!
Iterators that are exhausted.

An iterator over items that it holds itself, or over a range, stays exhausted whatever runs afterwards.
One that walks a list by position gives items again as soon as the list is longer than the place that
it has come to: its end is not remembered.
-/

namespace Stepwise

def Source.WalksList : Source → Prop
  | .list .. => True
  | _ => False

namespace Source

variable {source later : Source}

theorem next?_list_eq_none {heap : Heap} {list index : Nat} :
    (Source.list list index).next? heap = none ↔ (heap.list list).size ≤ index := by
  rw [next?, Option.map_eq_none_iff, Array.getElem?_eq_none_iff]

/-- A source that holds what it gives out stays exhausted on every heap. -/
theorem Advances.exhausted (advances : source.Advances later) (holds : ¬ source.WalksList)
    {heap : Heap} (exhausted : source.next? heap = none) (after : Heap) :
    later.next? after = none := by
  cases advances with
  | @items rest later passed =>
      cases rest with
      | nil => rw [List.suffix_nil.mp passed]; rfl
      | cons item rest => cases exhausted
  | list => exact absurd trivial holds
  | @range next later step remaining fewer passed =>
      cases remaining with
      | zero => rw [Nat.le_zero.mp passed]; rfl
      | succ remaining => cases exhausted

theorem Advances.walksList_iff (advances : source.Advances later) :
    later.WalksList ↔ source.WalksList := by
  cases advances <;> rfl

theorem Advances.list_eq {list index : Nat} (advances : (Source.list list index).Advances later) :
    ∃ place, index ≤ place ∧ later = .list list place := by
  cases advances with
  | list passed => exact ⟨_, passed, rfl⟩

end Source

theorem Walk.next?_shared_eq_none {heap : Heap} {ref : Nat} :
    (Walk.shared ref).next? heap = none ↔ (heap.iterator ref).source.next? heap = none :=
  Option.map_eq_none_iff

theorem Walk.next?_evolves {heap after : Heap} {walk rest : Walk} {item : Value}
    (met : walk.next? heap = some (item, rest, after)) : heap.Evolves after := by
  cases walk with
  | own iterator =>
      obtain ⟨found, -, same⟩ := Option.map_eq_some_iff.mp met
      cases same
      exact .refl heap
  | shared ref =>
      obtain ⟨⟨value, source⟩, found, same⟩ := Option.map_eq_some_iff.mp met
      cases same
      exact .setIterator heap (Source.next?_advances found)

/-- Only a list is walked by position, and only an iterator is not walked by one of its own. -/
theorem Value.walk?_holder {value : Value} {heap after : Heap} {walk : Walk}
    (begun : value.walk? heap = some (walk, after)) (notList : ∀ ref, value ≠ .list ref)
    (notIterator : ∀ ref, value ≠ .iterator ref) :
    ∃ iterator, walk = .own iterator ∧ ¬ iterator.source.WalksList := by
  cases value with
  | list ref => exact absurd rfl (notList ref)
  | iterator ref => exact absurd rfl (notIterator ref)
  | tuple | str | dict | range =>
      cases begun
      exact ⟨_, rfl, not_false⟩
  | _ => cases begun

namespace Run

open Script

def Action.GivesHolder (action : Action Value) : Prop :=
  ∀ heap value after, action heap = some (.ok value, after) →
    ∃ ref, value = .iterator ref ∧ ref < after.iterators.size ∧
      ¬ (after.iterator ref).source.WalksList

namespace Action.GivesHolder

theorem bind {α : Type} {action : Action α} {next : α → Action Value}
    (follows : ∀ value, GivesHolder (next value)) : GivesHolder (action >>= next) := by
  intro heap value after ended
  obtain ⟨_, middle, -, ended⟩ := bind_ok ended
  exact follows _ middle value after ended

theorem ofIterator {iterator : Iterator} (holds : ¬ iterator.source.WalksList) :
    GivesHolder (Action.change fun heap => heap.newIterator iterator) := by
  intro heap value after ended
  cases ended
  refine ⟨_, rfl, by simp, ?_⟩
  simpa [Heap.newIterator, Heap.iterator] using holds

theorem newIterator (kind : IteratorKind) (items : List Value) :
    GivesHolder (Action.newIterator kind items) := ofIterator not_false

/-- The builtins that walk a value backward, count its items or pair those of several values hold all
items from the beginning.  So does `iter`, except over a list. -/
theorem applyPlain {builtin : Builtin} {arguments : List Value} (keywords : Keywords)
    (holder : builtin ∈ [.reversed, .enumerate, .zip] ∨ builtin = .iter ∧
      ∃ value, arguments = [value] ∧ ∀ ref, value ≠ .list ref ∧ value ≠ .iterator ref) :
    GivesHolder (Run.applyPlain builtin arguments keywords) := by
  rcases holder with member | ⟨rfl, walked, rfl, other⟩
  · simp only [List.mem_cons, List.not_mem_nil, or_false] at member
    rcases member with rfl | rfl | rfl
    · exact bind fun _ => bind fun _ => bind fun _ => newIterator _ _
    · have counted (start : Int64) : GivesHolder (do
          Action.newIterator .enumerate
            (← numbered start.toInt (← itemsOf (arguments.head?.getD .none)))) :=
        bind fun _ => bind fun _ => newIterator _ _
      refine bind fun _ => ?_
      split
      · exact bind counted
      · exact bind counted
    · exact bind fun _ => bind fun _ => bind fun _ => newIterator _ _
  · refine bind fun _ => ?_
    intro heap value after ended
    obtain ⟨walk, middle, begun, ended⟩ := bind_ok ended
    unfold Action.walk at begun
    split at begun
    next found =>
      cases begun
      obtain ⟨iterator, rfl, holds⟩ :=
        Value.walk?_holder found (fun ref => (other ref).1) fun ref => (other ref).2
      exact ofIterator holds _ value after ended
    next =>
      obtain ⟨_, _, -, impossible⟩ := bind_ok begun
      cases impossible

end Action.GivesHolder

variable {σ : Type} {environment : Environment σ} {machine after : Machine σ}

/-- What may happen to a machine: code runs to its end, or an iterator is asked for its next item. -/
inductive Happens (environment : Environment σ) : Machine σ → Machine σ → Prop where
  | evaluate {machine after : Machine σ} {fuel : Nat} {expr : Expr} {result : Except RuntimeError Value} :
      (level environment fuel).evaluate expr machine = some (result, after) →
        Happens environment machine after
  | execute {machine after : Machine σ} {fuel : Nat} {block : List Statement}
      {result : Except RuntimeError Flow} :
      (level environment fuel).execute block machine = some (result, after) →
        Happens environment machine after
  | call {machine after : Machine σ} {fuel : Nat} {callee : Callee} {arguments : List Value}
      {result : Except RuntimeError Value} :
      callee.call environment fuel arguments machine = some (result, after) →
        Happens environment machine after
  | fetch {machine : Machine σ} {walk rest : Walk} {item : Value} {heap : Heap} :
      walk.next? machine.heap = some (item, rest, heap) →
        Happens environment machine { machine with heap := heap }

theorem Happens.evolves (happens : Happens environment machine after) :
    machine.heap.Evolves after.heap := by
  cases happens with
  | evaluate ended => exact ((confinement environment).evaluate _ _ _ _ _ ended).heap
  | execute ended =>
      exact (((confinement environment).correspondence.level _).execute _ _ _ _ ended).heap
  | call ended => exact ((confinement environment).call _ _ _ _ _ _ ended).heap
  | fetch met => exact Walk.next?_evolves met

/-- Whatever happens one after the other, iterators only move forward. -/
theorem evolves_of_happens (happens : Relation.ReflTransGen (Happens environment) machine after) :
    machine.heap.Evolves after.heap := by
  induction happens with
  | refl => exact .refl _
  | tail _ last inductionHypothesis => exact inductionHypothesis.trans last.evolves

/-- The iterators of `reversed`, `enumerate` and `zip`, and those of `iter` over anything but a list, stay
exhausted from the first time that they are. -/
theorem holder_stays_exhausted {builtin : Builtin} {arguments : List Value} {keywords : Keywords}
    (holder : builtin ∈ [.reversed, .enumerate, .zip] ∨ builtin = .iter ∧
      ∃ value, arguments = [value] ∧ ∀ ref, value ≠ .list ref ∧ value ≠ .iterator ref)
    {heap : Heap} {ref : Nat} {start : Machine σ}
    (given : applyPlain builtin arguments keywords heap = some (.ok (.iterator ref), start.heap))
    (before : Relation.ReflTransGen (Happens environment) start machine)
    (exhausted : (Walk.shared ref).next? machine.heap = none)
    (behind : Relation.ReflTransGen (Happens environment) machine after) :
    (Walk.shared ref).next? after.heap = none := by
  obtain ⟨_, same, made, holds⟩ := Action.GivesHolder.applyPlain keywords holder _ _ _ given
  cases same
  have first := evolves_of_happens before
  have still := (evolves_of_happens behind).sources ref (Nat.lt_of_lt_of_le made first.iterators_size)
  rw [← (first.sources ref made).walksList_iff] at holds
  rw [Walk.next?_shared_eq_none] at exhausted ⊢
  exact still.exhausted holds exhausted after.heap

/-- An iterator over items of its own, or over a range, stays exhausted whatever happens.  One over a
list is exhausted later exactly if the list is not longer than the place that the iterator has come to;
so it stays exhausted as long as the list does not become longer than it was. -/
theorem exhausted_stays (happens : Relation.ReflTransGen (Happens environment) machine after)
    {ref : Nat} (made : ref < machine.heap.iterators.size)
    (exhausted : (Walk.shared ref).next? machine.heap = none) :
    (¬ (machine.heap.iterator ref).source.WalksList → (Walk.shared ref).next? after.heap = none) ∧
      ∀ list index, (machine.heap.iterator ref).source = .list list index →
        (machine.heap.list list).size ≤ index ∧
          ∃ place, index ≤ place ∧ (after.heap.iterator ref).source = .list list place ∧
            ((Walk.shared ref).next? after.heap = none ↔ (after.heap.list list).size ≤ place) := by
  have advances := (evolves_of_happens happens).sources ref made
  rw [Walk.next?_shared_eq_none] at exhausted ⊢
  refine ⟨fun holds => advances.exhausted holds exhausted after.heap, fun list index walks => ?_⟩
  rw [walks] at advances exhausted
  obtain ⟨place, passed, later⟩ := advances.list_eq
  refine ⟨Source.next?_list_eq_none.mp exhausted, place, passed, later, ?_⟩
  rw [later, Source.next?_list_eq_none]

/-- A machine with an empty list `xs`, an iterator over it and one over an empty tuple. -/
def spent : Machine Unit :=
  .start { Heap.empty with
    lists := #[#[]], iterators := #[⟨.list, .list 0 0⟩, ⟨.tuple, .items []⟩] } ⟨[("xs", .list 0)]⟩ ()

def appendTwo : List Statement :=
  [.mk 1 false (.expr (.method (.name "xs") "append" [.positional (.int 2)]))]

/-- Both iterators are exhausted.  Behind `xs.append(2)` the one over the list has an item again. -/
theorem exhausted_stays_append :
    ∃ after, Relation.ReflTransGen (Happens ⟨0, [], 5, none⟩) spent after ∧
      0 < spent.heap.iterators.size ∧ (Walk.shared 0).next? spent.heap = none ∧
      (Walk.shared 0).next? after.heap ≠ none ∧
      1 < spent.heap.iterators.size ∧ (Walk.shared 1).next? spent.heap = none ∧
      (Walk.shared 1).next? after.heap = none := by
  have appends : ((level (⟨0, [], 5, none⟩ : Environment Unit) 9).execute appendTwo spent).map
      (fun ended =>
        ((ended.2.heap.list 0).size, (ended.2.heap.iterator 0).source.left ended.2.heap)) =
      some (1, 1) := by
    decide +kernel
  obtain ⟨⟨result, after⟩, ended, appended⟩ := Option.map_eq_some_iff.mp appends
  obtain ⟨size, left⟩ := Prod.mk.inj appended
  have happens : Relation.ReflTransGen (Happens (⟨0, [], 5, none⟩ : Environment Unit)) spent after :=
    .single (.execute ended)
  have list : 0 < spent.heap.iterators.size := by decide
  have tuple : 1 < spent.heap.iterators.size := by decide
  refine ⟨after, happens, list, rfl, ?_, tuple, rfl, ?_⟩
  · obtain ⟨-, place, -, walks, ends⟩ := (exhausted_stays happens list rfl).2 0 0 rfl
    simp only [walks, Source.left] at left
    rw [ne_eq, ends]
    omega
  · exact (exhausted_stays happens tuple rfl).1 not_false

end Run

end Stepwise
