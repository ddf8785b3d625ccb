import Stepwise.Proofs.Ranges.Views
import Stepwise.Proofs.Rounding

/-!
The search of a range for an item.

A range is searched by arithmetic: a double is brought to a 64-bit integer, and that integer is looked
for.  A walk compares the other way round, and brings each element to a double.  Both find the same
unless one of these steps rounds.
-/

namespace Stepwise

open Number Run

theorem Number.saturatedInteger_of_value {x : Float} {n : Int} (known : value? x = some (n : ℚ)) :
    Int64.ofInt (saturatedInteger x) = saturated n := by
  have cut := (value?_eq_intCast_iff.mp known).2
  unfold integer? at cut
  unfold saturatedInteger saturated
  cases form : Binary.ofFloat x with
  | infinite | notANumber => simp [form] at cut
  | finite negative significand exponent =>
      simp only [form, Option.some.injEq] at cut
      rw [← cut]

theorem Number.exists_value_of_isIntegral {x : Float} (integral : isIntegral x = true) :
    ∃ n : Int, value? x = some (n : ℚ) := by
  obtain ⟨n, cut⟩ := exists_integer_of_isIntegral integral .towardZero
  exact ⟨n, value?_eq_intCast_iff.mpr ⟨integral, cut⟩⟩

/-- A 64-bit integer is equal to a double that has the value of the rounded integer. -/
theorem Number.nearest_beq_iff (i : Int64) (x : Float) :
    (nearest i.toInt == x) = true ↔ value? x = some (rounded i.toInt : ℚ) := by
  have lower := least_le_toInt i
  have upper := toInt_le_greatest i
  simp only [least, greatest] at lower upper
  have leading : i.toInt.natAbs.log2 ≤ 63 := log2_le_of_lt (by omega)
  exact beq_iff_of_value (value?_nearest (by omega))

namespace Range

variable {range : Range}

theorem natAbs_le_of_mem {element : Int} (member : element ∈ range.elements) :
    element.natAbs ≤ 2 ^ 63 := by
  obtain ⟨k, inside, rfl⟩ := mem_progression.mp member
  have bounds := element_bounds inside
  simp only [least, greatest] at bounds
  omega

theorem equal_int (heap : Heap) (depth : Nat) (i : Int64) (item : Value) :
    Value.equal heap (depth + 1) (.int i) item =
      some (match item.number? with
        | some number => (Number.int i).equal number
        | none => false) := by
  cases item <;> rfl

/-- A walk over a range finds an item if the item is a number that is equal to an element. -/
theorem exists_equal_iff (heap : Heap) (depth : Nat) (item : Value) :
    (∃ candidate ∈ (range.elements.map Int64.ofInt).map Value.int,
        Value.equal heap (depth + 1) candidate item = some true) ↔
      ∃ element ∈ range.elements, ∃ number, item.number? = some number ∧
        (Number.int (Int64.ofInt element)).equal number = true := by
  rw [List.map_map]
  simp only [List.mem_map, exists_exists_and_eq_and, Function.comp_apply, equal_int,
    Option.some.injEq]
  refine exists_congr fun element => and_congr_right fun _ => ?_
  cases item.number? <;> simp

structure FindsWhole (range : Range) (n : Int) : Prop where
  /-- The integer that takes the place of a double beyond the 64-bit integers is no element. -/
  beyond : n < least ∨ greatest + 1 < n → (saturated n).toInt ∉ range.elements
  /-- No element is rounded to the double unless the integer of the double is an element as well. -/
  within : 2 ^ 53 ≤ n.natAbs → ∀ element ∈ range.elements, rounded element = n →
    (saturated n).toInt ∈ range.elements

/-- What the search of a range for an item relies on.  It can only fail for doubles of whole value. -/
def FindsExactly (range : Range) (item : Value) : Prop :=
  ∀ (x : Double) (n : Int), item = .float x → value? x.toFloat = some (n : ℚ) → range.FindsWhole n

theorem toInt_saturated_of_bounds {n : Int} (lower : least ≤ n) (upper : n ≤ greatest) :
    (saturated n).toInt = n := by
  rw [toInt_saturated, min_eq_right upper, max_eq_right lower]

theorem toInt_saturated_of_small {n : Int} (small : n.natAbs ≤ 2 ^ 53) : (saturated n).toInt = n :=
  toInt_saturated_of_bounds (by simp only [least]; omega) (by simp only [greatest]; omega)

/-- The search finds the integer of a double where a walk finds an element rounded to the double. -/
theorem findsWhole_iff {n : Int} (isDouble : rounded n = n) :
    ((saturated n).toInt ∈ range.elements ↔ ∃ element ∈ range.elements, rounded element = n) ↔
      range.FindsWhole n := by
  constructor
  · intro agree
    refine ⟨fun outside inside => ?_, fun _ element member same => agree.mpr ⟨element, member, same⟩⟩
    obtain ⟨element, member, same⟩ := agree.mp inside
    have bounds := natAbs_rounded_le_two_pow (natAbs_le_of_mem member)
    rw [same] at bounds
    simp only [least, greatest] at outside
    omega
  · rintro ⟨beyond, within⟩
    constructor
    · intro inside
      by_cases outside : n < least ∨ greatest + 1 < n
      · exact absurd inside (beyond outside)
      by_cases next : n = greatest + 1
      · subst next
        exact ⟨greatest, inside, by decide⟩
      · rw [toInt_saturated_of_bounds (by omega) (by omega)] at inside
        exact ⟨n, inside, isDouble⟩
    · rintro ⟨element, member, same⟩
      by_cases large : 2 ^ 53 ≤ n.natAbs
      · exact within large element member same
      · have small : ¬ 2 ^ 53 ≤ element.natAbs := fun largeElement =>
          large (same ▸ two_pow_le_natAbs_rounded largeElement)
        rw [rounded_of_small (by omega)] at same
        subst same
        rwa [toInt_saturated_of_small (by omega)]

/-- A double is found if it has a whole value and the 64-bit integer nearest to that is an element. -/
theorem contains_float_iff (moves : range.step ≠ 0) (x : Double) :
    (isIntegral x.toFloat && range.contains (Int64.ofInt (saturatedInteger x.toFloat))) = true ↔
      ∃ n : Int, value? x.toFloat = some (n : ℚ) ∧ (saturated n).toInt ∈ range.elements := by
  rw [Bool.and_eq_true, contains_iff moves]
  constructor
  · rintro ⟨integral, inside⟩
    obtain ⟨n, known⟩ := exists_value_of_isIntegral integral
    rw [saturatedInteger_of_value known] at inside
    exact ⟨n, known, inside⟩
  · rintro ⟨n, known, inside⟩
    rw [saturatedInteger_of_value known]
    exact ⟨(value?_eq_intCast_iff.mp known).1, inside⟩

theorem exists_equal_float_iff (x : Double) :
    (∃ element ∈ range.elements, (Number.int (Int64.ofInt element)).equal (.float x) = true) ↔
      ∃ n : Int, value? x.toFloat = some (n : ℚ) ∧
        ∃ element ∈ range.elements, rounded element = n := by
  constructor
  · rintro ⟨element, member, same⟩
    have known := (nearest_beq_iff _ _).mp same
    rw [toInt_ofInt_of_mem member] at known
    exact ⟨_, known, element, member, rfl⟩
  · rintro ⟨n, known, element, member, rfl⟩
    refine ⟨element, member, (nearest_beq_iff _ _).mpr ?_⟩
    rwa [toInt_ofInt_of_mem member]

/-- A search for a double and a walk agree as far as its value, if that is whole, allows it. -/
theorem findsExactly_float_iff (x : Double) :
    ((∃ n : Int, value? x.toFloat = some (n : ℚ) ∧ (saturated n).toInt ∈ range.elements) ↔
        ∃ n : Int, value? x.toFloat = some (n : ℚ) ∧
          ∃ element ∈ range.elements, rounded element = n) ↔
      range.FindsExactly (.float x) := by
  by_cases whole : ∃ n : Int, value? x.toFloat = some (n : ℚ)
  · obtain ⟨n, known⟩ := whole
    have unique (holds : Int → Prop) :
        (∃ m : Int, value? x.toFloat = some (m : ℚ) ∧ holds m) ↔ holds n := by
      simp [known]
    rw [unique, unique, findsWhole_iff (rounded_of_value known)]
    constructor
    · intro finds y m same also
      cases same
      rw [known, Option.some.injEq, Int.cast_inj] at also
      exact also ▸ finds
    · exact fun finds => finds x n rfl known
  · have fractional (holds : Int → Prop) :
        ¬ ∃ m : Int, value? x.toFloat = some (m : ℚ) ∧ holds m :=
      fun ⟨m, known, _⟩ => whole ⟨m, known⟩
    simp only [fractional, true_iff]
    intro y m same known
    cases same
    exact absurd ⟨m, known⟩ whole

/-- The search of a range finds what a walk over it finds, unless rounding comes between them. -/
theorem contains_iff_scan (moves : range.step ≠ 0) (item : Value) (depth : Nat) (heap : Heap) :
    ∃ found items, Run.contains (depth + 1) (.range range) item heap = some (.ok found, heap) ∧
      Value.items? heap (.range range) = some (items, heap) ∧
      ((found = true ↔
          ∃ candidate ∈ items, Value.equal heap (depth + 1) candidate item = some true) ↔
        range.FindsExactly item) := by
  have items := Value.items?_range heap range
  have noDouble (other : ∀ x, item ≠ .float x) : range.FindsExactly item :=
    fun x _ same => absurd same (other x)
  rcases known : item.number? with _ | i | x
  · refine ⟨false, _, ?_, items, ?_⟩
    · simp only [Run.contains, known]
      rfl
    · have finds := noDouble fun x same => by cases same; cases known
      rw [exists_equal_iff]
      simp [known, finds]
  · refine ⟨range.contains i, _, ?_, items, ?_⟩
    · simp only [Run.contains, known]
      rfl
    · have finds := noDouble fun x same => by cases same; cases known
      rw [exists_equal_iff, contains_iff moves]
      simp only [known, finds, iff_true, Option.some.injEq, exists_eq_left', Number.equal,
        beq_iff_eq]
      constructor
      · exact fun inside => ⟨_, inside, Int64.ofInt_toInt i⟩
      · rintro ⟨element, member, rfl⟩
        rwa [toInt_ofInt_of_mem member]
  · have same : item = .float x := by
      cases item <;> cases known
      rfl
    subst same
    refine ⟨_, _, rfl, items, ?_⟩
    rw [exists_equal_iff, contains_float_iff moves, ← findsExactly_float_iff,
      ← exists_equal_float_iff]
    simp [known]

/-- The double 2^64 is found in a range down from the greatest 64-bit integer, and is equal to none of its
elements. -/
theorem contains_iff_scan_beyond :
    (⟨Int64.maxValue, 0, -1⟩ : Range).step ≠ 0 ∧
      ∃ items, Run.contains 1 (.range ⟨Int64.maxValue, 0, -1⟩) (.float ⟨0x43F0000000000000⟩) .empty =
          some (.ok true, .empty) ∧
        Value.items? .empty (.range ⟨Int64.maxValue, 0, -1⟩) = some (items, .empty) ∧
        ¬ ∃ candidate ∈ items,
          Value.equal .empty 1 candidate (.float ⟨0x43F0000000000000⟩) = some true := by
  have moves : (⟨Int64.maxValue, 0, -1⟩ : Range).step ≠ 0 := by decide
  obtain ⟨found, items, answered, walked, agree⟩ :=
    contains_iff_scan moves (.float ⟨0x43F0000000000000⟩) 0 .empty
  have value : value? (Double.toFloat ⟨0x43F0000000000000⟩) = some ((2 ^ 64 : Int) : ℚ) :=
    value?_eq_intCast_iff.mpr ⟨by decide +kernel, by decide +kernel⟩
  have greatestInside : (saturated (2 ^ 64)).toInt ∈ Range.elements ⟨Int64.maxValue, 0, -1⟩ :=
    (contains_iff moves _).mp (by decide)
  have found := (contains_float_iff moves ⟨0x43F0000000000000⟩).mpr ⟨_, value, greatestInside⟩
  have finds : Run.contains 1 (.range ⟨Int64.maxValue, 0, -1⟩) (.float ⟨0x43F0000000000000⟩) .empty =
      some (.ok true, .empty) := by
    rw [← found]
    rfl
  refine ⟨moves, items, finds, walked, fun scanned => ?_⟩
  cases answered.symm.trans finds
  have exact := agree.mp ⟨fun _ => scanned, fun _ => rfl⟩
  exact (exact _ _ rfl value).beyond (.inr (by decide)) greatestInside

/-- No rounding comes between a search and a walk in ranges whose elements have at most 53 bits. -/
theorem findsExactly_of_small (small : ∀ element ∈ range.elements, element.natAbs ≤ 2 ^ 53)
    (item : Value) : range.FindsExactly item := by
  intro x n _ _
  constructor
  · intro outside inside
    have size := small _ inside
    rw [toInt_saturated] at size
    simp only [least, greatest] at outside size
    omega
  · intro _ element member same
    have size := small element member
    rw [rounded_of_small size] at same
    subst same
    rwa [toInt_saturated_of_small size]

end Range

end Stepwise
