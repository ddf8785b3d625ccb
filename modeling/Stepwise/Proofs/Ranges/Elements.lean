import Stepwise.Value.Compare

/-!
The integers that a range denotes.

A range counts its steps by dividing the distance to its stop.  A position is counted exactly if the
integer that the steps lead to lies before the stop, so that no element leaves the 64-bit integers.
-/

namespace Stepwise

open Number

/-- Steps are counted exactly as long as they lead to an integer before the stop. -/
theorem lt_stepCount_iff {start stop step : Int} {k : Nat} :
    k < stepCount start stop step ↔
      0 < step ∧ start + k * step < stop ∨ step < 0 ∧ stop < start + k * step := by
  unfold stepCount
  split
  next upward =>
    obtain ⟨positive, before⟩ := upward
    have quotient := Int.ediv_nonneg (show 0 ≤ stop - start - 1 by omega) (Int.le_of_lt positive)
    have counted := Int.le_ediv_iff_mul_le (a := k) (b := stop - start - 1) positive
    omega
  next notUpward =>
    split
    next downward =>
      obtain ⟨negative, before⟩ := downward
      have opposite : 0 < -step := by omega
      have quotient := Int.ediv_nonneg (show 0 ≤ start - stop - 1 by omega) (Int.le_of_lt opposite)
      have counted := Int.le_ediv_iff_mul_le (a := k) (b := start - stop - 1) opposite
      rw [Int.mul_neg] at counted
      omega
    next notDownward =>
      -- a step that leads away from the stop is not taken, and further steps lead further away
      have upward : 0 < step → 0 ≤ k * step := fun positive =>
        Int.mul_nonneg (Int.natCast_nonneg k) (Int.le_of_lt positive)
      have downward : step < 0 → k * step ≤ 0 := fun negative =>
        Int.mul_nonpos_of_nonneg_of_nonpos (Int.natCast_nonneg k) (Int.le_of_lt negative)
      omega

/-- The integers from `start` on by `step`, so many of them. -/
def progression (start step : Int) (count : Nat) : List Int :=
  (List.range count).map fun (k : Nat) => start + k * step

section

variable {start step : Int} {count : Nat}

@[simp]
theorem length_progression : (progression start step count).length = count := by
  simp [progression]

@[simp]
theorem getElem_progression {k : Nat} (inside : k < (progression start step count).length) :
    (progression start step count)[k] = start + k * step := by
  simp [progression]

theorem getElem?_progression {k : Nat} (inside : k < count) :
    (progression start step count)[k]? = some (start + k * step) := by
  simp [progression, inside]

theorem mem_progression {element : Int} :
    element ∈ progression start step count ↔ ∃ k : Nat, k < count ∧ element = start + k * step := by
  simp [progression, eq_comm]

/-- Two progressions are the same sequence if they have as many elements, the same first one if they
have one, and the same step if they have two. -/
theorem progression_eq_iff {otherStart otherStep : Int} {otherCount : Nat} :
    progression start step count = progression otherStart otherStep otherCount ↔
      count = otherCount ∧ (0 < count → start = otherStart) ∧ (1 < count → step = otherStep) := by
  constructor
  · intro same
    obtain rfl : count = otherCount := by simpa using congrArg List.length same
    have each : ∀ k : Nat, k < count → start + k * step = otherStart + k * otherStep := by
      intro k inside
      have found := @getElem?_progression start step _ _ inside
      rw [same, getElem?_progression inside] at found
      exact (Option.some.inj found).symm
    have first : 0 < count → start = otherStart := fun filled => by simpa using each 0 filled
    refine ⟨rfl, first, fun more => ?_⟩
    have second := each 1 more
    have := first (Nat.zero_lt_of_lt more)
    omega
  · rintro ⟨rfl, first, next⟩
    refine List.map_congr_left fun k inside => ?_
    have inside := List.mem_range.mp inside
    rw [first (Nat.zero_lt_of_lt inside)]
    cases k with
    | zero => simp
    | succ k => rw [next (by omega)]

end

namespace Range

def elements (range : Range) : List Int :=
  progression range.start.toInt range.step.toInt range.length

theorem lt_length_iff {range : Range} {k : Nat} :
    k < range.length ↔
      0 < range.step.toInt ∧ range.start.toInt + k * range.step.toInt < range.stop.toInt ∨
        range.step.toInt < 0 ∧ range.stop.toInt < range.start.toInt + k * range.step.toInt :=
  lt_stepCount_iff

theorem element_bounds {range : Range} {k : Nat} (inside : k < range.length) :
    least ≤ range.start.toInt + k * range.step.toInt ∧
      range.start.toInt + k * range.step.toInt ≤ greatest := by
  have start := And.intro (least_le_toInt range.start) (toInt_le_greatest range.start)
  have stop := And.intro (least_le_toInt range.stop) (toInt_le_greatest range.stop)
  have nonneg := Int.natCast_nonneg k
  rcases lt_length_iff.mp inside with ⟨upward, before⟩ | ⟨downward, before⟩
  · have := Int.mul_nonneg nonneg (Int.le_of_lt upward)
    omega
  · have := Int.mul_nonpos_of_nonneg_of_nonpos nonneg (Int.le_of_lt downward)
    omega

theorem toInt_ofInt_of_mem {range : Range} {element : Int} (member : element ∈ range.elements) :
    (Int64.ofInt element).toInt = element := by
  obtain ⟨k, inside, rfl⟩ := mem_progression.mp member
  have bounds := element_bounds inside
  exact toInt_ofInt_of_bounds bounds.1 bounds.2

theorem step_ne_zero_of_lt {range : Range} {k : Nat} (inside : k < range.length) :
    range.step.toInt ≠ 0 := by
  rcases lt_length_iff.mp inside with ⟨upward, -⟩ | ⟨downward, -⟩ <;> omega

theorem length_lt (range : Range) : range.length < 18446744073709551616 := by
  refine Nat.lt_of_not_le fun long => ?_
  have start := And.intro (least_le_toInt range.start) (toInt_le_greatest range.start)
  have stop := And.intro (least_le_toInt range.stop) (toInt_le_greatest range.stop)
  simp only [least, greatest] at start stop
  -- the last of so many steps leads out of the 64-bit integers
  rcases lt_length_iff.mp (show 18446744073709551615 < range.length from long) with
    ⟨upward, before⟩ | ⟨downward, before⟩ <;> omega

theorem elements_eq_iff {a b : Range} :
    a.elements = b.elements ↔ a.length = b.length ∧
      (0 < a.length → a.start = b.start) ∧ (1 < a.length → a.step = b.step) := by
  rw [elements, elements, progression_eq_iff, Int64.toInt_inj, Int64.toInt_inj]

/-- Ranges are told to be equal if they denote the same sequence of integers, but those with a single
element only if they also have the same step. -/
theorem sameElements_iff (a b : Range) :
    a.sameElements b = true ↔ a.elements = b.elements ∧ (a.length = 1 → a.step = b.step) := by
  simp only [sameElements, isEmpty, Bool.and_eq_true, Bool.or_eq_true, beq_iff_eq, elements_eq_iff]
  constructor
  · rintro ⟨length, empty | ⟨start, step⟩⟩
    · exact ⟨⟨length, fun filled => absurd empty (Nat.ne_of_gt filled), fun more => by omega⟩,
        fun single => by omega⟩
    · exact ⟨⟨length, fun _ => start, fun _ => step⟩, fun _ => step⟩
  · rintro ⟨⟨length, first, next⟩, single⟩
    refine ⟨length, ?_⟩
    rcases Nat.eq_zero_or_pos a.length with empty | filled
    · exact .inl empty
    · refine .inr ⟨first filled, ?_⟩
      rcases Nat.lt_or_eq_of_le filled with more | one
      · exact next more
      · exact single one.symm

end Range

/-- Two ranges are equal values if they denote the same sequence of integers, except that two ranges
with the same single element are told apart by their steps. -/
theorem Value.equal_ranges (heap : Heap) (depth : Nat) (a b : Range) :
    Value.equal heap (depth + 1) (.range a) (.range b) =
      some (decide (a.elements = b.elements ∧ (a.length = 1 → a.step = b.step))) := by
  have same : a.sameElements b =
      decide (a.elements = b.elements ∧ (a.length = 1 → a.step = b.step)) := by
    rw [Bool.eq_iff_iff, decide_eq_true_iff]
    exact Range.sameElements_iff a b
  rw [← same]
  rfl

example : Range.elements ⟨0, 1, 1⟩ = Range.elements ⟨0, 2, 2⟩ ∧
    Range.sameElements ⟨0, 1, 1⟩ ⟨0, 2, 2⟩ = false := by decide

end Stepwise
