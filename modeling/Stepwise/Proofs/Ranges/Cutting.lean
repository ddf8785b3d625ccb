import Stepwise.Proofs.Ranges.Elements
import Stepwise.Run.Subscript

/-!
Slices of ranges, computed in 64 bits.

A slice of a range is again a range.  Its start and stop are found by offsets from the start of the
range, and an offset, a sum or a step that leaves the 64-bit integers is replaced by the nearest of them.
The slice has the right elements exactly if that does no harm.
-/

namespace Stepwise

open Number Run

def Ends (step last stop : Int) : Prop :=
  0 < step ∧ last < stop ∧ stop ≤ last + step ∨ step < 0 ∧ stop < last ∧ last + step ≤ stop

theorem stepCount_eq_succ_iff {start stop step : Int} {k : Nat} :
    stepCount start stop step = k + 1 ↔ Ends step (start + k * step) stop := by
  have last := @lt_stepCount_iff start stop step k
  have next := @lt_stepCount_iff start stop step (k + 1)
  rw [Int.natCast_add, Int.add_mul] at next
  unfold Ends
  omega

theorem stepCount_eq_zero_iff {start stop step : Int} :
    stepCount start stop step = 0 ↔
      (0 < step → stop ≤ start) ∧ (step < 0 → start ≤ stop) := by
  have first := @lt_stepCount_iff start stop step 0
  omega

/-- A range denotes a progression that is not empty if it starts there, has its last element before the
stop, and takes the same steps if there are any. -/
theorem Range.elements_eq_progression_iff {range : Range} {start step : Int} {k : Nat} :
    range.elements = progression start step (k + 1) ↔
      range.start.toInt = start ∧ Ends range.step.toInt (start + k * step) range.stop.toInt ∧
        (0 < k → range.step.toInt = step) := by
  have walked : (0 < k → range.step.toInt = step) → (k : Int) * range.step.toInt = k * step := by
    intro next
    cases k with
    | zero => simp
    | succ k => rw [next k.succ_pos]
  rw [elements, progression_eq_iff]
  constructor
  · rintro ⟨counted, first, next⟩
    rw [counted] at first next
    have next := fun more => next (Nat.succ_lt_succ more)
    have first := first k.succ_pos
    exact ⟨first, walked next ▸ first ▸ stepCount_eq_succ_iff.mp counted, next⟩
  · rintro ⟨rfl, ends, next⟩
    have counted : range.length = k + 1 := stepCount_eq_succ_iff.mpr (walked next ▸ ends)
    exact ⟨counted, fun _ => rfl, fun more => next (by omega)⟩

/-- Steps in one direction do not lead to the first integer after they have led to the second. -/
def Along (step i j : Int) : Prop := (0 < step → i ≤ j) ∧ (step < 0 → j ≤ i)

theorem along_mul {i j : Int} (before : i ≤ j) (step : Int) : Along step (i * step) (j * step) :=
  ⟨fun upward => Int.mul_le_mul_of_nonneg_right before (Int.le_of_lt upward),
    fun downward => Int.mul_le_mul_of_nonpos_right before (Int.le_of_lt downward)⟩

theorem zero_lt_toInt_saturated {n : Int} : 0 < (saturated n).toInt ↔ 0 < n := by
  simp only [toInt_saturated, least, greatest]
  omega

theorem toInt_saturated_lt_zero {n : Int} : (saturated n).toInt < 0 ↔ n < 0 := by
  simp only [toInt_saturated, least, greatest]
  omega

theorem toInt_saturated_le {m n : Int} (before : m ≤ n) :
    (saturated m).toInt ≤ (saturated n).toInt := by
  simp only [toInt_saturated]
  omega

theorem Along.places {step i j : Int} (ordered : Along step i j) (start : Int) :
    Along step (saturated (start + (saturated i).toInt)).toInt
      (saturated (start + (saturated j).toInt)).toInt :=
  ⟨fun upward => toInt_saturated_le (Int.add_le_add_left (toInt_saturated_le (ordered.1 upward)) _),
    fun downward =>
      toInt_saturated_le (Int.add_le_add_left (toInt_saturated_le (ordered.2 downward)) _)⟩

/-- The place at an offset is computed exactly if the offset has 64 bits. -/
theorem place_eq_iff {start offset : Int} (startBounds : least ≤ start ∧ start ≤ greatest)
    (bounds : least ≤ start + offset ∧ start + offset ≤ greatest) :
    (saturated (start + (saturated offset).toInt)).toInt = start + offset ↔
      least ≤ offset ∧ offset ≤ greatest := by
  simp only [toInt_saturated, least, greatest] at *
  omega

section

/- A slice of a range from `start` by steps of `own`: the offsets of its first and last element and of
its stop, and its step, with `k` steps from the first element to the last one. -/
variable {start own first last stop step : Int} {k : Nat} (moves : own ≠ 0)
  (startBounds : least ≤ start ∧ start ≤ greatest) (ownBounds : least ≤ own ∧ own ≤ greatest)
  (firstBounds : least ≤ start + first ∧ start + first ≤ greatest)
  (single : k = 0 → last = first)

include moves startBounds ownBounds firstBounds single

/-- A slice in the direction of its range needs the offset of its last element to be well within the
64-bit integers. -/
theorem forward_iff
    (lastBounds : (0 < own → start + last < greatest) ∧ (own < 0 → least < start + last))
    (stopBounds : (0 < own → start + stop - own < greatest) ∧ (own < 0 → least < start + stop - own))
    (fromStart : Along own 0 first) (more : 0 < k → Along own (first + step) last)
    (toStop : Along own (last + own) stop) (reached : Along own stop (last + step))
    (onward : Along own own step) :
    (saturated (start + (saturated first).toInt)).toInt = start + first ∧
        Ends (saturated step).toInt (start + last)
          (saturated (start + (saturated stop).toInt)).toInt ∧
        (0 < k → (saturated step).toInt = step) ↔
      least < last ∧ last < greatest := by
  rw [place_eq_iff startBounds firstBounds]
  have direction : 0 < own ∧ ¬own < 0 ∨ own < 0 ∧ ¬0 < own := by omega
  simp only [toInt_saturated, Ends, Along, least, greatest] at *
  rcases direction with ⟨taken, other⟩ | ⟨taken, other⟩
  all_goals
    simp only [taken, other, true_implies, false_implies, and_true, true_and]
      at lastBounds stopBounds fromStart more toStop reached onward
    constructor
    · rintro ⟨bounds, ends, step⟩
      omega
    · rintro ⟨lower, upper⟩
      refine ⟨?_, ?_, ?_⟩ <;> omega

/-- A slice against the direction of its range needs the offset of its first element and its step to have
64 bits, and a stop before the range if it takes in the start of it.  If there is only one element, the
cut step must still lead to the stop. -/
theorem backward_iff
    (lastBounds : least ≤ start + last ∧ start + last ≤ greatest)
    (fromStart : Along own 0 last) (behindStart : last ≠ 0 → Along own own last)
    (fromLast : Along own last first) (more : 0 < k → Along own last (first + step))
    (beforeStart : Along own (-own) stop) (toStop : Along own stop (last - own))
    (reached : Along own (last + step) stop) (onward : Along own own (-step)) :
    (saturated (start + (saturated first).toInt)).toInt = start + first ∧
        Ends (saturated step).toInt (start + last)
          (saturated (start + (saturated stop).toInt)).toInt ∧
        (0 < k → (saturated step).toInt = step) ↔
      (least ≤ first ∧ first ≤ greatest) ∧ (0 < k → step ≤ greatest) ∧
        (last = 0 → (0 < own → least < start) ∧ (own < 0 → start < greatest)) ∧
        (k = 0 → (0 < own → first - stop ≤ -least ∨ start + first ≤ 0) ∧
          (own < 0 → least < first - stop ∨ first = 0 ∨ 0 ≤ start + first)) := by
  rw [place_eq_iff startBounds firstBounds]
  have direction : 0 < own ∧ ¬own < 0 ∨ own < 0 ∧ ¬0 < own := by omega
  simp only [toInt_saturated, Ends, Along, least, greatest] at *
  rcases direction with ⟨taken, other⟩ | ⟨taken, other⟩
  all_goals
    simp only [taken, other, true_implies, false_implies, and_true, true_and]
      at fromStart behindStart fromLast more beforeStart toStop reached onward ⊢
    constructor
    · rintro ⟨bounds, ends, step⟩
      refine ⟨bounds, ?_, ?_, ?_⟩ <;> omega
    · rintro ⟨bounds, step, atStart, alone⟩
      refine ⟨bounds, ?_, ?_⟩ <;> omega

end

end Stepwise
