import Stepwise.Proofs.Ranges.Elements
import Stepwise.Proofs.Twins.Action
import Stepwise.Run.Functions

/-!
The views of a range.

A range can be walked, asked for the item at a position, searched and measured.  All of it agrees with
the integers that a walk over the range gives, one after the other.
-/

namespace Stepwise

open Number Run

theorem Run.Action.bind_answered {α β : Type} {action : Action α} {next : α → Action β}
    {heap after : Heap} {answer : β} (answered : (action >>= next) heap = some (.ok answer, after)) :
    ∃ value middle, action heap = some (.ok value, middle) ∧
      next value middle = some (.ok answer, after) := by
  rw [bind_apply] at answered
  cases began : action heap with
  | none => rw [began] at answered; cases answered
  | some middle =>
      obtain ⟨result, middle⟩ := middle
      rw [began] at answered
      cases result with
      | ok value => exact ⟨value, middle, rfl, answered⟩
      | error error => cases answered

/-- A range that a script can make: by calling the builtin function, or as a slice of another one. -/
inductive Range.Built : Range → Prop where
  | called {range : Range} {arguments : List Value} {keywords : Keywords} {heap after : Heap} :
      applyPlain .range arguments keywords heap = some (.ok (.range range), after) → Built range
  | sliced {range part : Range} {lower upper step : Option Value} {heap after : Heap} :
      Built range → slice (.range range) lower upper step heap = some (.ok (.range part), after) →
      Built part

theorem rangeOf_step_ne_zero {bounds : List Int64} {range : Range} {heap after : Heap}
    (made : rangeOf bounds heap = some (.ok (.range range), after)) : range.step ≠ 0 := by
  have one : (1 : Int64) ≠ 0 := by decide
  unfold rangeOf at made
  split at made
  · cases made
    exact one
  · cases made
    exact one
  · split at made
    next => cases made
    next nonzero =>
      cases made
      simpa using nonzero
  · cases made
    exact one

theorem sliceRange_step_ne_zero {range : Range} {length step : Int} {lower upper : Option Int}
    (nonzero : range.step ≠ 0) (moves : step ≠ 0) :
    (sliceRange range length lower upper step).step ≠ 0 := by
  have own : range.step.toInt ≠ 0 := fun same => nonzero (Int64.toInt_inj.mp same)
  have product := Int.mul_ne_zero own moves
  intro same
  have same : (saturated (range.step.toInt * step)).toInt = 0 := by
    rw [show saturated (range.step.toInt * step) = 0 from same]
    rfl
  rw [toInt_saturated, least, greatest] at same
  omega

/-- A slice of a range that is a range is computed from its ends, with a step that is not zero. -/
theorem slice_range_answered {range part : Range} {lower upper step : Option Value}
    {heap after : Heap}
    (made : slice (.range range) lower upper step heap = some (.ok (.range part), after)) :
    ∃ length first last move, move ≠ 0 ∧ part = sliceRange range length first last move := by
  unfold slice at made
  obtain ⟨lower, _, -, made⟩ := Action.bind_answered made
  obtain ⟨upper, _, -, made⟩ := Action.bind_answered made
  obtain ⟨step, _, -, made⟩ := Action.bind_answered made
  simp only at made
  split at made
  · obtain ⟨_, _, thrown, -⟩ := Action.bind_answered made
    cases thrown
  · rename_i nonzero
    cases found : range.length? with
    | none =>
        rw [found] at made
        cases made
    | some length =>
        rw [found] at made
        cases made
        exact ⟨_, _, _, _, nonzero, rfl⟩

theorem Range.Built.step_ne_zero {range : Range} (built : range.Built) : range.step ≠ 0 := by
  induction built with
  | called made =>
      obtain ⟨_, _, -, made⟩ := Action.bind_answered made
      obtain ⟨_, _, -, made⟩ := Action.bind_answered made
      exact rangeOf_step_ne_zero made
  | sliced _ made nonzero =>
      obtain ⟨_, _, _, _, moves, rfl⟩ := slice_range_answered made
      exact sliceRange_step_ne_zero nonzero moves

inductive Walk.Gives : Heap → Walk → List Value → Prop where
  | ended {heap : Heap} {walk : Walk} : walk.next? heap = none → Gives heap walk []
  | item {heap after : Heap} {walk rest : Walk} {item : Value} {items : List Value} :
      walk.next? heap = some (item, rest, after) → Gives after rest items →
      Gives heap walk (item :: items)

theorem Walk.gives_rangeItems (heap : Heap) (kind : IteratorKind) (step : Int64) (remaining : Nat)
    (next : Int64) :
    Walk.Gives heap (.own ⟨kind, .range next remaining step⟩) (rangeItems step remaining next) := by
  induction remaining generalizing next with
  | zero => exact .ended rfl
  | succ remaining inductionHypothesis => exact .item rfl (inductionHypothesis (next + step))

theorem Int64.ofInt_toInt_add (i : Int64) (n : Int) : Int64.ofInt (i.toInt + n) = i + Int64.ofInt n := by
  rw [Int64.ofInt_add, Int64.ofInt_toInt]

/-- The items that are left of a range are those of a progression, reduced to 64 bits. -/
theorem rangeItems_eq (step : Int64) (remaining : Nat) (next : Int64) :
    rangeItems step remaining next =
      ((progression next.toInt step.toInt remaining).map Int64.ofInt).map .int := by
  simp only [progression, List.map_map, Function.comp_def]
  induction remaining generalizing next with
  | zero => rfl
  | succ remaining inductionHypothesis =>
      have moved : ∀ k : Nat, Int64.ofInt ((next + step).toInt + k * step.toInt) =
          Int64.ofInt (next.toInt + (k + 1 : Nat) * step.toInt) := by
        intro k
        have split : ((k + 1 : Nat) : Int) * step.toInt = step.toInt + k * step.toInt := by
          rw [Int.natCast_add, Int.add_mul, Int.add_comm]
          simp
        rw [split, Int64.ofInt_toInt_add, Int64.ofInt_toInt_add, Int64.ofInt_toInt_add,
          Int64.add_assoc]
      rw [rangeItems, inductionHypothesis, List.range_succ_eq_map, List.map_cons, List.map_map]
      simp only [Function.comp_def, moved]
      simp

theorem Value.items?_range (heap : Heap) (range : Range) :
    Value.items? heap (.range range) =
      some ((range.elements.map Int64.ofInt).map .int, heap) := by
  rw [Range.elements, ← rangeItems_eq]
  rfl

namespace Range

theorem contains_iff {range : Range} (moves : range.step ≠ 0) (value : Int64) :
    range.contains value = true ↔ value.toInt ∈ range.elements := by
  have moves : range.step.toInt ≠ 0 := fun same => moves (Int64.toInt_inj.mp same)
  simp only [contains, Bool.and_eq_true, beq_iff_eq, decide_eq_true_iff, elements, mem_progression]
  constructor
  · rintro ⟨⟨divides, nonneg⟩, inside⟩
    refine ⟨((value.toInt - range.start.toInt).tdiv range.step.toInt).toNat, by omega, ?_⟩
    have quotient := Int.mul_tdiv_add_tmod (value.toInt - range.start.toInt) range.step.toInt
    rw [Int.toNat_of_nonneg nonneg, Int.mul_comm]
    omega
  · rintro ⟨k, inside, found⟩
    have offset : value.toInt - range.start.toInt = k * range.step.toInt := by omega
    rw [offset, Int.mul_tmod_left, Int.mul_tdiv_cancel _ moves]
    omega

theorem get?_eq (range : Range) (index : Int64) :
    range.get? index.toInt =
      if 0 ≤ index.toInt then (range.elements.map Int64.ofInt)[index.toInt.toNat]? else none := by
  unfold get?
  by_cases nonneg : 0 ≤ index.toInt
  · obtain ⟨k, place⟩ := Int.eq_ofNat_of_zero_le nonneg
    rw [place, List.getElem?_map, elements]
    by_cases inside : k < range.length
    · simp [inside]
    · simp [inside]
  · simp [nonneg]

theorem lengthOf_range (range : Range) (heap : Heap) :
    lengthOf (.range range) heap =
      some (if (range.length : Int) ≤ greatest then .ok (.int (Int64.ofNat range.length))
        else .error .overflow, heap) := by
  have nonneg : least ≤ (range.length : Int) := by simp only [least]; omega
  unfold lengthOf length? bounded?
  by_cases fits : (range.length : Int) ≤ greatest
  · simp only [fits, nonneg, and_self, if_true]
    rfl
  · simp only [fits, and_false, if_false]
    rfl

end Range

/-- What every question about a range says if these are the items that a walk over it gives. -/
structure Range.Views (heap : Heap) (range : Range) (items : List Int64) : Prop where
  walk : ∃ walk, Value.walk? heap (.range range) = some (walk, heap) ∧
    walk.Gives heap (items.map .int)
  drain : Value.items? heap (.range range) = some (items.map .int, heap)
  length : items.length = range.length
  -- so counting them in 64 bits without a sign loses none
  bounded : range.length < 18446744073709551616
  -- as an equation of integers, so no item is the result of a sum that has wrapped
  item : ∀ (k : Nat) (inside : k < items.length),
    items[k].toInt = range.start.toInt + k * range.step.toInt
  get : ∀ index : Int64, range.get? index.toInt =
    if 0 ≤ index.toInt then items[index.toInt.toNat]? else none
  contains : ∀ value : Int64, range.contains value = true ↔ value ∈ items
  isEmpty : range.isEmpty = true ↔ items = []
  len : lengthOf (.range range) heap =
    some (if (items.length : Int) ≤ greatest then .ok (.int (Int64.ofNat items.length))
      else .error .overflow, heap)

/-- A range that a script can make does not stand still, and all views of it agree on its items. -/
theorem Range.Built.views {range : Range} (built : range.Built) (heap : Heap) :
    range.step ≠ 0 ∧ ∃ items, range.Views heap items := by
  have length : (range.elements.map Int64.ofInt).length = range.length := by simp [elements]
  refine ⟨built.step_ne_zero, range.elements.map Int64.ofInt, ?_, Value.items?_range heap range,
    length, range.length_lt, ?_, range.get?_eq, ?_, ?_, ?_⟩
  · exact ⟨_, rfl, rangeItems_eq _ _ _ ▸ Walk.gives_rangeItems heap _ _ _ _⟩
  · intro k inside
    rw [List.getElem_map, toInt_ofInt_of_mem (List.getElem_mem _)]
    simp [elements]
  · intro value
    rw [contains_iff built.step_ne_zero, List.mem_map]
    constructor
    · exact fun member => ⟨_, member, Int64.ofInt_toInt value⟩
    · rintro ⟨element, member, rfl⟩
      rwa [toInt_ofInt_of_mem member]
  · rw [← List.length_eq_zero_iff, length]
    simp [isEmpty]
  · rw [length]
    exact lengthOf_range range heap

theorem Range.Built.views_of_reversed_slice :
    Range.Built ⟨9, -3, -3⟩ ∧ ∃ items, Range.Views .empty ⟨9, -3, -3⟩ items := by
  have whole : Range.Built ⟨0, 10, 3⟩ :=
    .called (show applyPlain .range [.int 0, .int 10, .int 3] [] .empty = some (.ok _, .empty) from rfl)
  have part : Range.Built ⟨9, -3, -3⟩ :=
    .sliced whole (show slice _ none none (some (.int (-1))) .empty = some (.ok _, .empty) from rfl)
  exact ⟨part, (Range.Built.views part .empty).2⟩

end Stepwise
