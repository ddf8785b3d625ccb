import Mathlib.Data.List.Basic
import Stepwise.Proofs.Ranges.Cutting
import Stepwise.Proofs.Ranges.Views
import Stepwise.Proofs.Slicing

/-!
Slices of ranges against slices of lists.

A slice of a range is computed from its ends, a slice of a list takes the items one by one.  They are
compared for the list of all items of the range.
-/

namespace Stepwise

open Number Run

namespace Range

/-- A slice from `first` by `move` before `stop`, as positions in a range. -/
def cut (values : Range) (first stop move : Int) : Range :=
  let place (i : Int) : Int64 :=
    saturated (values.start.toInt + (saturated (i * values.step.toInt)).toInt)
  ⟨place first, place stop, saturated (values.step.toInt * move)⟩

/-- What a forward slice needs that has its last item at a position: the offset of that item from the
start of the range is well within the 64-bit integers. -/
structure ExactForward (values : Range) (last : Int) : Prop where
  lower : least < last * values.step.toInt
  upper : last * values.step.toInt < greatest

/-- What a backward slice needs that has its first and its last item at these positions. -/
structure ExactBackward (values : Range) (first last stop : Int) (move : Int) : Prop where
  /-- The offset of the first item from the start of the range has 64 bits. -/
  offset : least ≤ first * values.step.toInt ∧ first * values.step.toInt ≤ greatest
  /-- A second item is reached by a step of 64 bits. -/
  step : last ≠ first → values.step.toInt * move ≤ greatest
  /-- There is a 64-bit integer before the range for the slice to stop at, if it ends with the first
  item of the range. -/
  room : last = 0 → (0 < values.step.toInt → least < values.start.toInt) ∧
    (values.step.toInt < 0 → values.start.toInt < greatest)
  /-- From a single item, a step that is cut leads to the stop nevertheless. -/
  single : last = first →
    (0 < values.step.toInt → (first - stop) * values.step.toInt ≤ -least ∨
      values.start.toInt + first * values.step.toInt ≤ 0) ∧
    (values.step.toInt < 0 → least < (first - stop) * values.step.toInt ∨ first = 0 ∨
      0 ≤ values.start.toInt + first * values.step.toInt)

/-- Whether a slice is free of harm by overflow, with the last of its positions found by counting.  A
slice without items always is. -/
def Exact (values : Range) (first stop move : Int) : Prop :=
  ∀ k : Nat, stepCount first stop move = k + 1 →
    if 0 < move then values.ExactForward (first + k * move)
    else values.ExactBackward first (first + k * move) stop move

variable {values : Range} {first stop move : Int} {k : Nat}

/-- The element at a position is a 64-bit integer, and not the one at the end that the range heads
for. -/
theorem position_bounds (values : Range) {i : Int} (nonneg : 0 ≤ i) (inside : i < values.length) :
    (least ≤ values.start.toInt + i * values.step.toInt ∧
      values.start.toInt + i * values.step.toInt ≤ greatest) ∧
    (0 < values.step.toInt → values.start.toInt + i * values.step.toInt < greatest) ∧
      (values.step.toInt < 0 → least < values.start.toInt + i * values.step.toInt) := by
  obtain ⟨k, rfl⟩ := Int.eq_ofNat_of_zero_le nonneg
  have inside := Int.ofNat_lt.mp inside
  have stop := And.intro (least_le_toInt values.stop) (toInt_le_greatest values.stop)
  have before := lt_length_iff.mp inside
  exact ⟨element_bounds inside, by omega, by omega⟩

theorem position_offset (values : Range) (first move : Int) (k : Nat) :
    values.start.toInt + first * values.step.toInt + k * (values.step.toInt * move) =
      values.start.toInt + (first + k * move) * values.step.toInt := by
  rw [Int.add_mul, Int.mul_assoc, Int.mul_comm move, Int.add_assoc]

theorem length_cut_of_empty (moves : move ≠ 0) (empty : stepCount first stop move = 0) :
    (values.cut first stop move).length = 0 := by
  have empty := stepCount_eq_zero_iff.mp empty
  have still : values.step.toInt = 0 → values.step.toInt * move = 0 := fun zero => by
    rw [zero, Int.zero_mul]
  rw [length, stepCount_eq_zero_iff]
  simp only [cut, zero_lt_toInt_saturated, toInt_saturated_lt_zero]
  rcases Int.lt_or_gt_of_ne moves with backward | forward
  · have places := (along_mul (empty.2 backward) values.step.toInt).places values.start.toInt
    have step := along_mul (show 1 ≤ -move by omega) values.step.toInt
    rw [Int.one_mul, Int.neg_mul, Int.mul_comm] at step
    unfold Along at step
    exact ⟨fun upward => places.2 (by omega), fun downward => places.1 (by omega)⟩
  · have places := (along_mul (empty.1 forward) values.step.toInt).places values.start.toInt
    have step := along_mul (show 1 ≤ move by omega) values.step.toInt
    rw [Int.one_mul, Int.mul_comm] at step
    unfold Along at step
    exact ⟨fun upward => places.1 (by omega), fun downward => places.2 (by omega)⟩

/-- The steps between the first and the last position of a slice, in the direction of the slice. -/
theorem walked (k : Nat) (forward : 0 < move) : 0 ≤ (k : Int) * move ∧ (0 < k → move ≤ k * move) := by
  refine ⟨Int.mul_nonneg (Int.natCast_nonneg k) (Int.le_of_lt forward), fun more => ?_⟩
  have := Int.mul_le_mul_of_nonneg_right (show (1 : Int) ≤ k by omega) (Int.le_of_lt forward)
  omega

theorem cut_forward_iff (forward : 0 < move) (counted : stepCount first stop move = k + 1)
    (firstInside : 0 ≤ first) (stopInside : stop ≤ values.length) :
    (values.cut first stop move).elements =
        progression (values.start.toInt + first * values.step.toInt) (values.step.toInt * move)
          (k + 1) ↔
      values.ExactForward (first + k * move) := by
  obtain ⟨last, named⟩ : ∃ last : Int, last = first + k * move := ⟨_, rfl⟩
  have single : k = 0 → last = first := by rintro rfl; simpa using named
  obtain ⟨ordered, second⟩ : first ≤ last ∧ (0 < k → first + move ≤ last) := by
    have := walked k forward
    omega
  obtain ⟨before, reached⟩ : last < stop ∧ stop ≤ last + move := by
    have ends := stepCount_eq_succ_iff.mp counted
    rw [← named, Ends] at ends
    omega
  have moving : values.step.toInt ≠ 0 := step_ne_zero_of_lt (k := 0) (by omega)
  have atStop := (position_bounds values (show 0 ≤ stop - 1 by omega) (by omega)).2
  have fromStart := along_mul firstInside values.step.toInt
  have more := fun more => along_mul (second more) values.step.toInt
  have toStop := along_mul (show last + 1 ≤ stop from before) values.step.toInt
  have reached := along_mul reached values.step.toInt
  have onward := along_mul (show 1 ≤ move from forward) values.step.toInt
  simp only [Int.add_mul, Int.sub_mul, Int.one_mul, Int.zero_mul, Int.mul_comm move,
    ← Int.add_sub_assoc] at atStop fromStart more toStop reached onward
  rw [elements_eq_progression_iff, position_offset, ← named]
  refine (forward_iff moving ⟨least_le_toInt _, toInt_le_greatest _⟩
    ⟨least_le_toInt _, toInt_le_greatest _⟩ (position_bounds values firstInside (by omega)).1
    (fun none => by rw [single none]) (position_bounds values (by omega) (by omega)).2 atStop
    fromStart more toStop reached onward).trans ?_
  constructor
  · rintro ⟨lower, upper⟩
    exact ⟨lower, upper⟩
  · rintro ⟨lower, upper⟩
    exact ⟨lower, upper⟩

theorem cut_backward_iff (backward : move < 0) (counted : stepCount first stop move = k + 1)
    (firstInside : first < values.length) (stopInside : -1 ≤ stop) :
    (values.cut first stop move).elements =
        progression (values.start.toInt + first * values.step.toInt) (values.step.toInt * move)
          (k + 1) ↔
      values.ExactBackward first (first + k * move) stop move := by
  obtain ⟨last, named⟩ : ∃ last : Int, last = first + k * move := ⟨_, rfl⟩
  obtain ⟨ordered, second⟩ : last ≤ first ∧ (0 < k → last ≤ first + move) := by
    have := walked k (show 0 < -move by omega)
    rw [Int.mul_neg] at this
    omega
  have single : k = 0 ↔ last = first := by
    constructor
    · rintro rfl
      simpa using named
    · omega
  obtain ⟨before, reached⟩ : stop < last ∧ last + move ≤ stop := by
    have ends := stepCount_eq_succ_iff.mp counted
    rw [← named, Ends] at ends
    omega
  have moving : values.step.toInt ≠ 0 := step_ne_zero_of_lt (k := 0) (by omega)
  have fromStart := along_mul (show 0 ≤ last by omega) values.step.toInt
  have behindStart := fun behind : last ≠ 0 => along_mul (show 1 ≤ last by omega) values.step.toInt
  have fromLast := along_mul ordered values.step.toInt
  have more := fun more => along_mul (second more) values.step.toInt
  have beforeStart := along_mul stopInside values.step.toInt
  have toStop := along_mul (show stop ≤ last - 1 by omega) values.step.toInt
  have reached := along_mul reached values.step.toInt
  have onward := along_mul (show 1 ≤ -move by omega) values.step.toInt
  simp only [Int.add_mul, Int.sub_mul, Int.neg_mul, Int.one_mul, Int.zero_mul, Int.mul_comm move]
    at fromStart behindStart fromLast more beforeStart toStop reached onward
  rw [elements_eq_progression_iff, position_offset, ← named]
  refine (backward_iff moving ⟨least_le_toInt _, toInt_le_greatest _⟩
    ⟨least_le_toInt _, toInt_le_greatest _⟩ (position_bounds values (by omega) (by omega)).1
    (fun none => by rw [single.mp none]) (position_bounds values (by omega) (by omega)).1 fromStart
    (fun behind => behindStart fun zero => behind (by rw [zero, Int.zero_mul])) fromLast more
    beforeStart toStop reached onward).trans ?_
  have zero (i : Int) : i * values.step.toInt = 0 ↔ i = 0 := by
    rw [Int.mul_eq_zero, or_iff_left moving]
  simp only [zero, ← Int.sub_mul, Nat.pos_iff_ne_zero, ne_eq, single]
  constructor
  · rintro ⟨offset, step, room, single⟩
    exact ⟨offset, step, room, single⟩
  · rintro ⟨offset, step, room, single⟩
    exact ⟨offset, step, room, single⟩

/-- A slice has the elements at its positions exactly if no overflow does harm. -/
theorem cut_elements_iff (moves : move ≠ 0) (within : EndsWithin values.length move first stop) :
    (values.cut first stop move).elements =
        progression (values.start.toInt + first * values.step.toInt) (values.step.toInt * move)
          (stepCount first stop move) ↔
      values.Exact first stop move := by
  unfold Exact
  cases counted : stepCount first stop move with
  | zero => simp [elements, length_cut_of_empty moves counted, progression]
  | succ k =>
      simp only [Nat.add_right_cancel_iff, forall_eq']
      unfold EndsWithin at within
      rcases Int.lt_or_gt_of_ne moves with backward | forward
      · rw [if_pos backward] at within
        rw [if_neg (by omega)]
        exact cut_backward_iff backward counted within.1 within.2
      · rw [if_neg (by omega)] at within
        rw [if_pos forward]
        exact cut_forward_iff forward counted within.1 within.2

/-- Overflow does no harm to slices of a range that extends over less than half of the 64-bit integers
and does not start at an end of them. -/
theorem exact_of_extent (within : EndsWithin values.length move first stop)
    (extent : least < values.length * values.step.toInt ∧ values.length * values.step.toInt < greatest)
    (start : least < values.start.toInt ∧ values.start.toInt < greatest) :
    values.Exact first stop move := by
  intro k counted
  have inside := within.position (k := k) (by omega)
  have ends := stepCount_eq_succ_iff.mp counted
  have moving : values.step.toInt ≠ 0 := step_ne_zero_of_lt (k := 0) (by omega)
  -- each distance that is asked for is one of positions in the range, or to the one before it
  have near : ∀ i : Int, 0 ≤ i → i ≤ values.length →
      least < i * values.step.toInt ∧ i * values.step.toInt < greatest := by
    intro i nonneg short
    have fromStart := along_mul nonneg values.step.toInt
    have toEnd := along_mul short values.step.toInt
    simp only [Along, Int.zero_mul, least, greatest] at *
    omega
  unfold EndsWithin at within
  unfold Ends at ends
  split
  · have last := near (first + k * move) inside.1 (by omega)
    exact ⟨last.1, last.2⟩
  · have := walked k (show 0 < -move by omega)
    rw [Int.mul_neg] at this
    rw [if_pos (by omega)] at within
    have offset := near first (by omega) (by omega)
    refine ⟨⟨Int.le_of_lt offset.1, Int.le_of_lt offset.2⟩, fun more => ?_, fun _ => ?_,
      fun single => ?_⟩
    · have second : 0 < k := Nat.pos_of_ne_zero fun none => more (by simp [none])
      have step := near (-move) (by omega) (by omega)
      rw [Int.neg_mul, Int.mul_comm] at step
      simp only [least, greatest] at *
      omega
    · exact ⟨fun _ => start.1, fun _ => start.2⟩
    · have distance := near (first - stop) (by omega) (by omega)
      simp only [least, greatest] at *
      omega

theorem toInt_ofInt_of_position (within : EndsWithin values.length move first stop) :
    ∀ element ∈ progression (values.start.toInt + first * values.step.toInt)
      (values.step.toInt * move) (stepCount first stop move),
      (Int64.ofInt element).toInt = element := by
  intro element member
  obtain ⟨k, counted, rfl⟩ := mem_progression.mp member
  have position := within.position counted
  have bounds := (position_bounds values position.1 position.2).1
  rw [position_offset]
  exact toInt_ofInt_of_bounds bounds.1 bounds.2

theorem sliceItems_elements {values : Range} (fits : (values.length : Int) ≤ greatest)
    (lower upper : Option Int) (move : Int) :
    sliceItems ((values.elements.map Int64.ofInt).map Value.int).toArray lower upper move =
      let ends := sliceEnds values.length lower upper (move < 0)
      ((progression (values.start.toInt + ends.1 * values.step.toInt) (values.step.toInt * move)
        (stepCount ends.1 ends.2 move)).map Int64.ofInt).map .int := by
  have within := sliceEnds_within (Int.natCast_nonneg values.length) move lower upper
  have size : ((values.elements.map Int64.ofInt).map Value.int).toArray.size = values.length := by
    simp [elements]
  simp only [sliceItems, size, within.slicePositions_eq fits, progression]
  simp only [List.filterMap_map, List.map_map]
  rw [List.filterMap_eq_map_iff_forall_eq_some]
  intro k counted
  have position := within.position (List.mem_range.mp counted)
  obtain ⟨i, place⟩ := Int.eq_ofNat_of_zero_le position.1
  have inside : i < values.length := by omega
  simp only [Function.comp_apply, position_offset, place, Int.toNat_natCast, List.getElem?_toArray,
    List.getElem?_map, elements, getElem?_progression inside, Option.map_some]

end Range

theorem ints_eq_iff {a b : List Int} (inA : ∀ element ∈ a, (Int64.ofInt element).toInt = element)
    (inB : ∀ element ∈ b, (Int64.ofInt element).toInt = element) :
    (a.map Int64.ofInt).map Value.int = (b.map Int64.ofInt).map Value.int ↔ a = b := by
  have read {elements : List Int}
      (bounded : ∀ element ∈ elements, (Int64.ofInt element).toInt = element) :
      (elements.map Int64.ofInt).map Int64.toInt = elements := by
    rw [List.map_map]
    exact (List.map_congr_left (g := id) bounded).trans (List.map_id elements)
  constructor
  · intro same
    have same := (List.map_inj_right fun _ _ same => Value.int.inj same).mp same
    rw [← read inA, same, read inB]
  · rintro rfl
    rfl

theorem slice_range {lower upper step : Option Int64} (moves : step ≠ some 0) {values : Range}
    (fits : (values.length : Int) ≤ greatest) (heap : Heap) :
    slice (.range values) (lower.map .int) (upper.map .int) (step.map .int) heap =
      let move := (step.map Int64.toInt).getD 1
      let ends := sliceEnds values.length (lower.map Int64.toInt) (upper.map Int64.toInt) (move < 0)
      some (.ok (.range (values.cut ends.1 ends.2 move)), heap) := by
  have nonneg : least ≤ (values.length : Int) := by simp only [least]; omega
  have counted : values.length? = some (Int64.ofInt values.length) :=
    bounded?_eq_some_iff.mpr (toInt_ofInt_of_bounds nonneg fits)
  unfold slice
  simp only [(IsBound.ofInt _).sliceBound, pure_bind]
  rw [if_neg (moves_of_step moves), counted]
  simp only [toInt_ofInt_of_bounds nonneg fits, sliceRange]
  rfl

theorem list_range (values : Range) (heap : Heap) :
    applyPlain .list [.range values] [] heap =
      let listed := heap.newList ((values.elements.map Int64.ofInt).map Value.int).toArray
      some (.ok listed.1, listed.2) := by
  have collected : Action.itemsOf (.range values) heap =
      some (.ok ((values.elements.map Int64.ofInt).map .int), heap) := by
    unfold Action.itemsOf
    rw [Value.items?_range]
  change (Action.itemsOf (.range values) >>= Action.newList) heap = _
  rw [Action.bind_apply, collected]
  rfl

/-- The slice of a range has the items of the same slice of its list exactly if its ends and its step are
computed without harm by overflow. -/
theorem slice_range_eq_slice_list_iff {values : Range} (fits : (values.length : Int) ≤ greatest)
    {step : Option Int64} (moves : step ≠ some 0) (lower upper : Option Int64) (heap : Heap) :
    let move := (step.map Int64.toInt).getD 1
    let ends := sliceEnds values.length (lower.map Int64.toInt) (upper.map Int64.toInt) (move < 0)
    ∃ ref listed part copy after,
      applyPlain .list [.range values] [] heap = some (.ok (.list ref), listed) ∧
      slice (.range values) (lower.map .int) (upper.map .int) (step.map .int) listed =
        some (.ok (.range part), listed) ∧
      slice (.list ref) (lower.map .int) (upper.map .int) (step.map .int) listed =
        some (.ok (.list copy), after) ∧
      (Value.items? after (.range part) = some ((after.list copy).toList, after) ↔
        values.Exact ends.1 ends.2 move) := by
  intro move ends
  refine ⟨_, _, _, _, _, list_range values heap, slice_range moves fits _,
    slice_list (.ofInt _) (.ofInt _) (.ofInt _) moves _ _, ?_⟩
  have within : EndsWithin values.length move ends.1 ends.2 :=
    sliceEnds_within (Int.natCast_nonneg _) _ _ _
  rw [Heap.list_newList, Heap.list_newList, Value.items?_range, Range.sliceItems_elements fits]
  simp only [Option.some.injEq, Prod.mk.injEq, and_true]
  rw [ints_eq_iff (fun _ => Range.toInt_ofInt_of_mem) (Range.toInt_ofInt_of_position within)]
  exact Range.cut_elements_iff (moves_of_step moves) within

/-- A range that begins with the least integer, backward: there is no integer to stop at. -/
theorem slice_range_from_least :
    let values : Range := ⟨-9223372036854775808, -9223372036854775800, 5⟩
    (values.length : Int) ≤ greatest ∧ (some (-1) : Option Int64) ≠ some 0 ∧
      ∃ ref listed part copy after,
        applyPlain .list [.range values] [] .empty = some (.ok (.list ref), listed) ∧
        slice (.range values) none none (some (.int (-1))) listed =
          some (.ok (.range part), listed) ∧
        slice (.list ref) none none (some (.int (-1))) listed = some (.ok (.list copy), after) ∧
        Value.items? after (.range part) ≠ some ((after.list copy).toList, after) := by
  intro values
  have fits : (values.length : Int) ≤ greatest := by decide
  have moves : (some (-1) : Option Int64) ≠ some 0 := by decide
  obtain ⟨ref, listed, part, copy, after, whole, sliced, copied, same⟩ :=
    slice_range_eq_slice_list_iff fits moves none none .empty
  refine ⟨fits, moves, ref, listed, part, copy, after, whole, sliced, copied, fun agree => ?_⟩
  have room := (same.mp agree 1 (by decide)).room (by decide)
  exact absurd (room.1 (by decide)) (by decide)

end Stepwise
