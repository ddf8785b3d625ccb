import Stepwise.Value.Iteration

/-!
Heaps that only grow.

What is on a heap stays there.  A list or a dict may get other contents and an iterator may move on,
but an iterator stays of its kind and a function object stays as it is.  An iterator only ever moves
forward: it never comes back to items that it has given out.
-/

namespace Stepwise

def Heap.kinds (heap : Heap) : List IteratorKind := heap.iterators.toList.map Iterator.kind

/-- Everything on a heap is still on another, changed at most in the contents of lists and dicts and
in where iterators take their items from. -/
structure Heap.Grows (heap after : Heap) : Prop where
  lists : heap.lists.size ≤ after.lists.size
  dicts : heap.dicts.size ≤ after.dicts.size
  kinds : heap.kinds <+: after.kinds
  functions : heap.functions.toList <+: after.functions.toList

namespace Heap.Grows

theorem refl (heap : Heap) : heap.Grows heap :=
  ⟨Nat.le_refl _, Nat.le_refl _, List.prefix_rfl, List.prefix_rfl⟩

theorem trans {heap middle after : Heap} (first : heap.Grows middle) (second : middle.Grows after) :
    heap.Grows after :=
  ⟨Nat.le_trans first.lists second.lists, Nat.le_trans first.dicts second.dicts,
    first.kinds.trans second.kinds, first.functions.trans second.functions⟩

variable (heap : Heap)

theorem retag (tags : Nat) : heap.Grows { heap with nextTag := tags } :=
  ⟨Nat.le_refl _, Nat.le_refl _, List.prefix_rfl, List.prefix_rfl⟩

theorem newList (items : Array Value) : heap.Grows (heap.newList items).2 :=
  ⟨by simp [Heap.newList], Nat.le_refl _, List.prefix_rfl, List.prefix_rfl⟩

theorem newDict (entries : Dict Value) : heap.Grows (heap.newDict entries).2 :=
  ⟨Nat.le_refl _, by simp [Heap.newDict], List.prefix_rfl, List.prefix_rfl⟩

theorem newIterator (iterator : Iterator) : heap.Grows (heap.newIterator iterator).2 :=
  ⟨Nat.le_refl _, Nat.le_refl _, by simp [Heap.kinds, Heap.newIterator], List.prefix_rfl⟩

theorem newFunction (function : FunctionObject) : heap.Grows (heap.newFunction function).2 :=
  ⟨Nat.le_refl _, Nat.le_refl _, List.prefix_rfl, by simp [Heap.newFunction]⟩

theorem modifyList (ref : Nat) (change : Array Value → Array Value) :
    heap.Grows (heap.modifyList ref change) :=
  ⟨by simp [Heap.modifyList], Nat.le_refl _, List.prefix_rfl, List.prefix_rfl⟩

theorem modifyDict (ref : Nat) (change : Dict Value → Dict Value) :
    heap.Grows (heap.modifyDict ref change) :=
  ⟨Nat.le_refl _, by simp [Heap.modifyDict], List.prefix_rfl, List.prefix_rfl⟩

theorem setIterator (ref : Nat) (source : Source) :
    heap.Grows (heap.setIterator ref { heap.iterator ref with source := source }) := by
  have same : (heap.setIterator ref { heap.iterator ref with source := source }).kinds =
      heap.kinds := by
    simp only [Heap.kinds, Heap.setIterator, Array.toList_setIfInBounds, List.map_set]
    refine List.ext_getElem? fun place => ?_
    rw [List.getElem?_set]
    by_cases here : ref = place
    · subst here
      simp only [Heap.iterator, List.getElem?_map, Array.getElem?_toList, List.length_map,
        Array.length_toList, if_true]
      cases found : heap.iterators[ref]? with
      | none => simpa using found
      | some iterator =>
          obtain ⟨inside, _⟩ := Array.getElem?_eq_some_iff.mp found
          simp [inside]
    · rw [if_neg here]
  exact ⟨Nat.le_refl _, Nat.le_refl _, same ▸ List.prefix_rfl, List.prefix_rfl⟩

end Heap.Grows

/-- A source that has moved on takes its items from where it took them before, and has passed some of
them. -/
inductive Source.Advances : Source → Source → Prop where
  | items {rest later : List Value} : later <:+ rest → Advances (.items rest) (.items later)
  | list {ref index later : Nat} : index ≤ later → Advances (.list ref index) (.list ref later)
  | range {next later step : Int64} {remaining fewer : Nat} :
      fewer ≤ remaining → Advances (.range next remaining step) (.range later fewer step)

namespace Source.Advances

theorem refl (source : Source) : source.Advances source := by
  cases source with
  | items rest => exact .items List.suffix_rfl
  | list ref index => exact .list (Nat.le_refl _)
  | range next remaining step => exact .range (Nat.le_refl _)

theorem trans {first second third : Source} (before : first.Advances second)
    (after : second.Advances third) : first.Advances third := by
  cases before with
  | items passed => cases after with | items more => exact .items (more.trans passed)
  | list passed => cases after with | list more => exact .list (Nat.le_trans passed more)
  | range passed => cases after with | range more => exact .range (Nat.le_trans more passed)

end Source.Advances

theorem Source.next?_advances {heap : Heap} {source later : Source} {item : Value}
    (met : source.next? heap = some (item, later)) : source.Advances later := by
  cases source with
  | items rest =>
      cases rest with
      | nil => cases met
      | cons value rest =>
          cases met
          exact .items (List.suffix_cons _ _)
  | list ref index =>
      obtain ⟨value, -, same⟩ := Option.map_eq_some_iff.mp met
      cases same
      exact .list (Nat.le_succ index)
  | range next remaining step =>
      cases remaining with
      | zero => cases met
      | succ remaining =>
          cases met
          exact .range (Nat.le_succ remaining)

theorem Source.drain_advances (heap : Heap) (source : Source) :
    source.Advances (source.drain heap).2 := by
  cases source with
  | items rest => exact .items (List.nil_suffix)
  | list ref index => exact .list (Nat.le_add_right _ _)
  | range next remaining step => exact .range (Nat.zero_le _)

/-- A heap that grows, and whose iterators only move forward. -/
structure Heap.Evolves (heap after : Heap) : Prop extends heap.Grows after where
  sources : ∀ ref < heap.iterators.size,
    (heap.iterator ref).source.Advances (after.iterator ref).source

theorem Heap.Grows.iterators_size {heap after : Heap} (grows : heap.Grows after) :
    heap.iterators.size ≤ after.iterators.size := by
  have kinds := grows.kinds.length_le
  simpa only [Heap.kinds, List.length_map, Array.length_toList] using kinds

namespace Heap.Evolves

theorem of_unmoved {heap after : Heap} (grows : heap.Grows after)
    (unmoved : ∀ ref < heap.iterators.size, after.iterator ref = heap.iterator ref) :
    heap.Evolves after where
  toGrows := grows
  sources ref inside := unmoved ref inside ▸ .refl _

theorem refl (heap : Heap) : heap.Evolves heap := of_unmoved (.refl heap) fun _ _ => rfl

theorem trans {heap middle after : Heap} (first : heap.Evolves middle)
    (second : middle.Evolves after) : heap.Evolves after where
  toGrows := first.toGrows.trans second.toGrows
  sources ref inside :=
    (first.sources ref inside).trans
      (second.sources ref (Nat.lt_of_lt_of_le inside first.iterators_size))

variable (heap : Heap)

theorem retag (tags : Nat) : heap.Evolves { heap with nextTag := tags } :=
  of_unmoved (.retag heap tags) fun _ _ => rfl

theorem newList (items : Array Value) : heap.Evolves (heap.newList items).2 :=
  of_unmoved (.newList heap items) fun _ _ => rfl

theorem newDict (entries : Dict Value) : heap.Evolves (heap.newDict entries).2 :=
  of_unmoved (.newDict heap entries) fun _ _ => rfl

theorem newIterator (iterator : Iterator) : heap.Evolves (heap.newIterator iterator).2 :=
  of_unmoved (.newIterator heap iterator) fun ref inside => by
    simp only [Heap.iterator, Heap.newIterator, Array.getElem?_push, Nat.ne_of_lt inside, if_false]

theorem newFunction (function : FunctionObject) : heap.Evolves (heap.newFunction function).2 :=
  of_unmoved (.newFunction heap function) fun _ _ => rfl

theorem modifyList (ref : Nat) (change : Array Value → Array Value) :
    heap.Evolves (heap.modifyList ref change) :=
  of_unmoved (.modifyList heap ref change) fun _ _ => rfl

theorem modifyDict (ref : Nat) (change : Dict Value → Dict Value) :
    heap.Evolves (heap.modifyDict ref change) :=
  of_unmoved (.modifyDict heap ref change) fun _ _ => rfl

theorem setIterator {ref : Nat} {source : Source}
    (advances : (heap.iterator ref).source.Advances source) :
    heap.Evolves (heap.setIterator ref { heap.iterator ref with source := source }) where
  toGrows := .setIterator heap ref source
  sources other inside := by
    by_cases here : ref = other
    · subst here
      simpa [Heap.iterator, Heap.setIterator, inside] using advances
    · simp only [Heap.iterator, Heap.setIterator, Array.getElem?_setIfInBounds_ne here]
      exact .refl _

end Heap.Evolves

end Stepwise
