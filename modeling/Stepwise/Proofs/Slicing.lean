import Stepwise.Proofs.Ranges.Elements
import Stepwise.Run.Subscript

/-!
Slices of sequences.

A slice walks over a sequence from its start by its step as long as it is before its stop.  Start and
stop are between the ends of the sequence, so the walk never leaves it, and no position that it asks for
is passed over for want of an item.
-/

namespace Stepwise

open Number Run

/-- Whether a walk by `step` that has come to `i` is still before `stop`. -/
def Before (step i stop : Int) : Prop := 0 < step ∧ i < stop ∨ step < 0 ∧ stop < i

instance (step i stop : Int) : Decidable (Before step i stop) :=
  inferInstanceAs (Decidable (_ ∨ _))

/-- The step behind the first one leads to where the first step leads from there. -/
theorem next_step (start step : Int) (k : Nat) :
    start + step + k * step = start + (k + 1 : Nat) * step := by
  rw [Int.natCast_add, Int.add_mul]
  omega

theorem lt_stepCount_iff_before {start stop step : Int} {k : Nat} :
    k < stepCount start stop step ↔ Before step (start + k * step) stop :=
  lt_stepCount_iff

theorem stepCount_of_before {start stop step : Int} (before : Before step start stop) :
    stepCount start stop step = stepCount (start + step) stop step + 1 := by
  have counted (k : Nat) : k < stepCount (start + step) stop step ↔
      k + 1 < stepCount start stop step := by
    rw [lt_stepCount_iff_before, lt_stepCount_iff_before, next_step]
  have first : 0 < stepCount start stop step := lt_stepCount_iff_before.mpr (by simpa using before)
  have more := counted (stepCount start stop step - 1)
  have fewer := counted (stepCount (start + step) stop step)
  omega

theorem stepCount_of_not_before {start stop step : Int} (ended : ¬ Before step start stop) :
    stepCount start stop step = 0 := by
  refine Nat.eq_zero_of_not_pos fun counted => ended ?_
  simpa using lt_stepCount_iff_before.mp counted

theorem slicePositions_eq {start stop step : Int}
    (upward : 0 < step → least ≤ start ∧ stop ≤ greatest)
    (downward : step < 0 → start ≤ greatest ∧ least ≤ stop) :
    slicePositions start stop step =
      (List.range (stepCount start stop step)).map fun (k : Nat) =>
        unsignedPosition (start + k * step) := by
  fun_induction slicePositions start stop step with
  | case1 start before inductionHypothesis =>
      have rest : (if least ≤ start + step ∧ start + step ≤ greatest then
            slicePositions (start + step) stop step else []) =
          (List.range (stepCount (start + step) stop step)).map fun (k : Nat) =>
            unsignedPosition (start + step + k * step) := by
        split
        next inside => exact inductionHypothesis (by omega) (by omega)
        next outside =>
          have ended : ¬ Before step (start + step) stop := by
            unfold Before
            omega
          rw [stepCount_of_not_before ended]
          rfl
      rw [rest, stepCount_of_before before, List.range_succ_eq_map, List.map_cons, List.map_map]
      simp only [next_step, Function.comp_def, Nat.succ_eq_add_one, Int.natCast_zero, Int.zero_mul,
        Int.add_zero]
  | case2 start ended =>
      rw [stepCount_of_not_before ended]
      rfl

/-- Where a slice may start and stop, so that all of its positions are in a sequence of this length. -/
def EndsWithin (length move first stop : Int) : Prop :=
  if move < 0 then first < length ∧ -1 ≤ stop else 0 ≤ first ∧ stop ≤ length

theorem clamp_bounds {length : Int} (nonneg : 0 ≤ length) (backward : Bool) (bound : Int) :
    if backward then -1 ≤ clamp length backward bound ∧ clamp length backward bound < length
    else 0 ≤ clamp length backward bound ∧ clamp length backward bound ≤ length := by
  unfold clamp
  cases backward <;> grind

theorem sliceEnds_within {length : Int} (nonneg : 0 ≤ length) (move : Int)
    (lower upper : Option Int) :
    EndsWithin length move (sliceEnds length lower upper (move < 0)).1
      (sliceEnds length lower upper (move < 0)).2 := by
  have clamped := clamp_bounds nonneg (move < 0)
  unfold EndsWithin sliceEnds
  cases lower <;> cases upper <;> grind

namespace EndsWithin

variable {length move first stop : Int} (within : EndsWithin length move first stop)

include within

theorem position {k : Nat} (inside : k < stepCount first stop move) :
    0 ≤ first + k * move ∧ first + k * move < length := by
  rcases lt_stepCount_iff.mp inside with ⟨forward, before⟩ | ⟨backward, before⟩
  · rw [EndsWithin, if_neg (by omega)] at within
    have := Int.mul_nonneg (Int.natCast_nonneg k) (Int.le_of_lt forward)
    omega
  · rw [EndsWithin, if_pos backward] at within
    have := Int.mul_nonpos_of_nonneg_of_nonpos (Int.natCast_nonneg k) (Int.le_of_lt backward)
    omega

/-- The positions in a sequence whose length has 64 bits are computed without harm. -/
theorem slicePositions_eq (fits : length ≤ greatest) :
    slicePositions first stop move =
      (List.range (stepCount first stop move)).map fun (k : Nat) => (first + k * move).toNat := by
  rw [Stepwise.slicePositions_eq]
  · refine List.map_congr_left fun k counted => ?_
    have position := within.position (List.mem_range.mp counted)
    simp only [greatest] at fits
    rw [unsignedPosition, Int.emod_eq_of_lt position.1 (by omega)]
  · intro forward
    rw [EndsWithin, if_neg (by omega)] at within
    simp only [least]
    omega
  · intro backward
    rw [EndsWithin, if_pos backward] at within
    simp only [least]
    omega

end EndsWithin

/-- Where a bound is in a sequence.  A negative one counts from the end; one out of the sequence is
brought to the nearest position, or to the place before the first or behind the last one. -/
def clamped (length step bound : Int) : Int :=
  let i := if bound < 0 then bound + length else bound
  if step < 0 then max (-1) (min (length - 1) i) else max 0 (min length i)

def sliceStart (length : Int) (lower : Option Int64) (step : Int) : Int :=
  match lower with
  | some bound => clamped length step bound.toInt
  | none => if step < 0 then length - 1 else 0

def sliceStop (length : Int) (upper : Option Int64) (step : Int) : Int :=
  match upper with
  | some bound => clamped length step bound.toInt
  | none => if step < 0 then -1 else length

theorem clamp_eq_clamped {length : Int} (nonneg : 0 ≤ length) (step bound : Int) :
    clamp length (step < 0) bound = clamped length step bound := by
  unfold clamp clamped
  grind

theorem sliceEnds_eq {length : Int} (nonneg : 0 ≤ length) (lower upper : Option Int64) (step : Int) :
    sliceEnds length (lower.map Int64.toInt) (upper.map Int64.toInt) (step < 0) =
      (sliceStart length lower step, sliceStop length upper step) := by
  unfold sliceEnds sliceStart sliceStop
  cases lower <;> cases upper <;> simp [clamp_eq_clamped nonneg]

/-- A part of a sequence has its items from the start of a slice by its step before its stop. -/
structure IsSlice {α : Type} (items : List α) (lower upper : Option Int64) (step : Int)
    (part : List α) : Prop where
  inside : ∀ k : Nat,
    Before step (sliceStart items.length lower step + k * step) (sliceStop items.length upper step) →
      0 ≤ sliceStart items.length lower step + k * step ∧
        sliceStart items.length lower step + k * step < items.length
  item : ∀ k : Nat, part[k]? =
    if Before step (sliceStart items.length lower step + k * step)
        (sliceStop items.length upper step) then
      items[(sliceStart items.length lower step + k * step).toNat]?
    else none

theorem getElem?_filterMap_of_isSome {α β : Type} {find : α → Option β} {places : List α}
    (found : ∀ place ∈ places, (find place).isSome) (k : Nat) :
    (places.filterMap find)[k]? = places[k]?.bind find := by
  induction places generalizing k with
  | nil => simp
  | cons place rest inductionHypothesis =>
      obtain ⟨item, isItem⟩ := Option.isSome_iff_exists.mp (found place List.mem_cons_self)
      rw [List.filterMap_cons_some isItem]
      cases k with
      | zero => simp [isItem]
      | succ k =>
          simp only [List.getElem?_cons_succ]
          exact inductionHypothesis (fun place member => found place (List.mem_cons_of_mem _ member)) k

theorem isSlice_sliceItems {α : Type} (items : Array α) (fits : (items.size : Int) ≤ greatest)
    (lower upper : Option Int64) (step : Int) :
    IsSlice items.toList lower upper step
      (sliceItems items (lower.map Int64.toInt) (upper.map Int64.toInt) step) := by
  have nonneg : (0 : Int) ≤ items.size := Int.natCast_nonneg _
  have within := sliceEnds_within nonneg step (lower.map Int64.toInt) (upper.map Int64.toInt)
  have positions := within.slicePositions_eq fits
  rw [sliceEnds_eq nonneg] at within positions
  constructor
  · intro k before
    exact within.position (lt_stepCount_iff_before.mpr before)
  · intro k
    have found : ∀ place ∈ slicePositions (sliceStart items.size lower step)
        (sliceStop items.size upper step) step, (items[place]?).isSome := by
      rw [positions]
      intro place member
      obtain ⟨k, counted, rfl⟩ := List.mem_map.mp member
      have position := within.position (List.mem_range.mp counted)
      have inside : (sliceStart items.size lower step + k * step).toNat < items.size := by omega
      simp [inside]
    rw [sliceItems, sliceEnds_eq nonneg, getElem?_filterMap_of_isSome found, positions,
      List.getElem?_map, Array.length_toList]
    by_cases before : Before step (sliceStart items.size lower step + k * step)
        (sliceStop items.size upper step)
    · rw [if_pos before, List.getElem?_range (lt_stepCount_iff_before.mpr before)]
      simp
    · have behind := fun counted => before (lt_stepCount_iff_before.mp counted)
      rw [if_neg before, List.getElem?_eq_none (by simpa using behind)]
      rfl

/-- What a bound of a slice says: nothing if it is absent or none. -/
inductive IsBound : Option Value → Option Int64 → Prop where
  | absent : IsBound none none
  | none : IsBound (some .none) none
  | index {value : Value} {i : Int64} : value.index? = some i → IsBound (some value) (some i)

theorem IsBound.ofInt (bound : Option Int64) : IsBound (bound.map .int) bound := by
  cases bound with
  | none => exact .absent
  | some i => exact .index rfl

theorem IsBound.sliceBound {value : Option Value} {bound : Option Int64}
    (isBound : IsBound value bound) : sliceBound value = pure bound := by
  cases isBound with
  | absent | none => rfl
  | @index value i found =>
      cases value with
      | bool | int => cases found; rfl
      | _ => cases found

theorem moves_of_step {move : Option Int64} (moves : move ≠ some 0) :
    (move.map Int64.toInt).getD 1 ≠ 0 := by
  cases move with
  | none => decide
  | some move => exact fun zero => moves (congrArg some (Int64.toInt_inj.mp zero))

section

variable {lower upper step : Option Value} {first last move : Option Int64}
  (isLower : IsBound lower first) (isUpper : IsBound upper last) (isStep : IsBound step move)
  (moves : move ≠ some 0)

include isLower isUpper isStep moves

theorem slice_list (ref : Nat) (heap : Heap) :
    slice (.list ref) lower upper step heap =
      let part := heap.newList (sliceItems (heap.list ref) (first.map Int64.toInt)
        (last.map Int64.toInt) ((move.map Int64.toInt).getD 1)).toArray
      some (.ok part.1, part.2) := by
  unfold slice
  simp only [isLower.sliceBound, isUpper.sliceBound, isStep.sliceBound, pure_bind]
  rw [if_neg (moves_of_step moves)]
  rfl

theorem slice_tuple (tag : Nat) (items : List Value) (heap : Heap) :
    slice (.tuple tag items) lower upper step heap =
      let part := heap.newTuple (sliceItems items.toArray (first.map Int64.toInt)
        (last.map Int64.toInt) ((move.map Int64.toInt).getD 1))
      some (.ok part.1, part.2) := by
  unfold slice
  simp only [isLower.sliceBound, isUpper.sliceBound, isStep.sliceBound, pure_bind]
  rw [if_neg (moves_of_step moves)]
  rfl

theorem slice_str (text : String) (heap : Heap) :
    slice (.str text) lower upper step heap =
      some (.ok (.str (String.ofList (sliceItems text.toList.toArray (first.map Int64.toInt)
        (last.map Int64.toInt) ((move.map Int64.toInt).getD 1)))), heap) := by
  unfold slice
  simp only [isLower.sliceBound, isUpper.sliceBound, isStep.sliceBound, pure_bind]
  rw [if_neg (moves_of_step moves)]
  rfl

end

/-- A slice of a list, a tuple or a string has the items from its start by its step before its stop, and
every position on the way there is in the sequence.  A sequence has at most as many items as the greatest
integer says. -/
theorem slice_walks {lower upper step : Option Value} {first last move : Option Int64}
    (isLower : IsBound lower first) (isUpper : IsBound upper last) (isStep : IsBound step move)
    (moves : move ≠ some 0) (heap : Heap) :
    (∀ ref, ((heap.list ref).size : Int) ≤ greatest → ∃ part : List Value,
      IsSlice (heap.list ref).toList first last ((move.map Int64.toInt).getD 1) part ∧
      slice (.list ref) lower upper step heap =
        some (.ok (heap.newList part.toArray).1, (heap.newList part.toArray).2)) ∧
    (∀ tag items, (items.length : Int) ≤ greatest → ∃ part : List Value,
      IsSlice items first last ((move.map Int64.toInt).getD 1) part ∧
      slice (.tuple tag items) lower upper step heap =
        some (.ok (heap.newTuple part).1, (heap.newTuple part).2)) ∧
    (∀ text : String, (text.toList.length : Int) ≤ greatest → ∃ part : List Char,
      IsSlice text.toList first last ((move.map Int64.toInt).getD 1) part ∧
      slice (.str text) lower upper step heap = some (.ok (.str (String.ofList part)), heap)) := by
  refine ⟨fun ref fits => ?_, fun tag items fits => ?_, fun text fits => ?_⟩
  · exact ⟨_, isSlice_sliceItems _ fits first last _, slice_list isLower isUpper isStep moves ref heap⟩
  · exact ⟨_, isSlice_sliceItems items.toArray (by simpa using fits) first last _,
      slice_tuple isLower isUpper isStep moves tag items heap⟩
  · exact ⟨_, isSlice_sliceItems text.toList.toArray (by simpa using fits) first last _,
      slice_str isLower isUpper isStep moves text heap⟩

/-- A backward slice from far behind a string. -/
theorem slice_walks_backward :
    IsBound (some (.int 9223372036854775807)) (some 9223372036854775807) ∧ IsBound (some .none) none ∧
      IsBound (some (.int (-2))) (some (-2)) ∧ (some (-2) : Option Int64) ≠ some 0 ∧
      (("abcd".toList.length : Nat) : Int) ≤ greatest ∧
      slice (.str "abcd") (some (.int 9223372036854775807)) (some .none) (some (.int (-2))) .empty =
        some (.ok (.str "db"), .empty) := by
  have isLower : IsBound (some (.int 9223372036854775807)) (some 9223372036854775807) := .index rfl
  have isStep : IsBound (some (.int (-2))) (some (-2)) := .index rfl
  have moves : (some (-2) : Option Int64) ≠ some 0 := by decide
  have fits : (("abcd".toList.length : Nat) : Int) ≤ greatest := by decide
  obtain ⟨part, isSlice, sliced⟩ :=
    (slice_walks isLower .none isStep moves .empty).2.2 "abcd" fits
  have known : part = ['d', 'b'] := by
    refine List.ext_getElem? fun k => (isSlice.item k).trans ?_
    match k with
    | 0 | 1 => decide
    | k + 2 =>
        have start : sliceStart "abcd".toList.length (some 9223372036854775807) (-2) = 3 := by decide
        have stop : sliceStop "abcd".toList.length none (-2) = -1 := by decide
        have step : ((some (-2)).map Int64.toInt).getD 1 = -2 := by decide
        rw [step, start, stop]
        exact if_neg (by unfold Before; omega)
  subst known
  exact ⟨isLower, .none, isStep, moves, fits, sliced⟩

end Stepwise
