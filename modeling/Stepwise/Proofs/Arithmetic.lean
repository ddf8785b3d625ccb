import Mathlib.Data.Rat.Floor
import Mathlib.Tactic.Ring
import Stepwise.Run.Functions

/-!
Integer arithmetic is exact.

Every operation on integers gives the exact result if that has 64 bits, and refuses it otherwise.  The
steps by which quotients and powers are computed never leave the 64-bit integers before the result does.
-/

namespace Stepwise.Number

structure IsFloorDivision (x y quotient rest : Int) : Prop where
  sum : quotient * y + rest = x
  between : 0 ≤ rest ∧ rest < y ∨ y < rest ∧ rest ≤ 0

/-- The quotient that leaves a remainder between zero and the divisor is the exact one rounded down. -/
theorem IsFloorDivision.floor_eq {x y quotient rest : Int} (nonzero : y ≠ 0)
    (division : IsFloorDivision x y quotient rest) : ⌊(x : ℚ) / y⌋ = quotient := by
  have split : (x : ℚ) / y = quotient + rest / y := by
    have scale : (y : ℚ) ≠ 0 := Int.cast_ne_zero.mpr nonzero
    rw [← division.sum]
    push_cast
    rw [add_div, mul_div_cancel_right₀ _ scale]
  rw [split, Int.floor_intCast_add, add_eq_left, Int.floor_eq_zero_iff]
  rcases division.between with ⟨nonneg, below⟩ | ⟨above, nonpos⟩
  · have scale : (0 : ℚ) < y := by exact_mod_cast nonneg.trans_lt below
    refine ⟨by positivity, ?_⟩
    rw [div_lt_one scale]
    exact_mod_cast below
  · have scale : (y : ℚ) < 0 := by exact_mod_cast above.trans_le nonpos
    refine ⟨div_nonneg_of_nonpos (by exact_mod_cast nonpos) scale.le, ?_⟩
    rw [div_lt_one_of_neg scale]
    exact_mod_cast above

theorem IsFloorDivision.eq_zero_or_sign_eq {x y quotient rest : Int}
    (division : IsFloorDivision x y quotient rest) : rest = 0 ∨ rest.sign = y.sign := by
  by_cases zero : rest = 0
  · exact .inl zero
  right
  rcases division.between with ⟨nonneg, below⟩ | ⟨above, nonpos⟩
  · have positive : 0 < rest := by omega
    rw [Int.sign_eq_one_of_pos positive, Int.sign_eq_one_of_pos (positive.trans below)]
  · have negative : rest < 0 := by omega
    rw [Int.sign_eq_neg_one_of_neg negative, Int.sign_eq_neg_one_of_neg (above.trans negative)]

theorem IsFloorDivision.abs_lt_abs {x y quotient rest : Int}
    (division : IsFloorDivision x y quotient rest) : |rest| < |y| := by
  rcases division.between with ⟨nonneg, below⟩ | ⟨above, nonpos⟩
  · rwa [abs_of_nonneg nonneg, abs_of_pos (nonneg.trans_lt below)]
  · rw [abs_of_nonpos nonpos, abs_of_neg (above.trans_le nonpos)]
    omega

theorem hasQuotient_iff {x y : Int64} :
    hasQuotient x y = true ↔ y ≠ 0 ∧ ¬ (x = Int64.minValue ∧ y = -1) := by
  simp [hasQuotient, -not_and, not_and_or]

theorem toInt_div_of_hasQuotient {x y : Int64} (divides : hasQuotient x y = true) :
    (x / y).toInt = x.toInt.tdiv y.toInt := by
  rcases not_and_or.mp (hasQuotient_iff.mp divides).2 with other | other
  · exact Int64.toInt_div_of_ne_left x y other
  · exact Int64.toInt_div_of_ne_right x y other

theorem toInt_sub_of_bounds {x y : Int64} (lower : least ≤ x.toInt - y.toInt)
    (upper : x.toInt - y.toInt ≤ greatest) : (x - y).toInt = x.toInt - y.toInt := by
  simp only [least, greatest] at lower upper
  rw [Int64.toInt_sub, Int.bmod_eq_of_le_mul_two] <;> omega

theorem toInt_add_of_bounds {x y : Int64} (lower : least ≤ x.toInt + y.toInt)
    (upper : x.toInt + y.toInt ≤ greatest) : (x + y).toInt = x.toInt + y.toInt := by
  simp only [least, greatest] at lower upper
  rw [Int64.toInt_add, Int.bmod_eq_of_le_mul_two] <;> omega

/-- The remainder of a quotient rounded toward zero is less than the divisor, and it is on the side of
the dividend. -/
theorem tmod_bounds (x : Int) {y : Int} (nonzero : y ≠ 0) :
    (x.tmod y).natAbs < y.natAbs ∧ (0 ≤ x → 0 ≤ x.tmod y) ∧ (x ≤ 0 → x.tmod y ≤ 0) := by
  refine ⟨?_, Int.tmod_nonneg y, fun nonpos => ?_⟩
  · rw [Int.natAbs_tmod]
    exact Nat.mod_lt _ (Int.natAbs_pos.mpr nonzero)
  · have opposite := Int.tmod_nonneg y (show 0 ≤ -x by omega)
    rw [Int.neg_tmod] at opposite
    omega

theorem natAbs_tdiv_of_tmod_ne_zero {x y : Int} (nonzero : y ≠ 0) (apart : x.tmod y ≠ 0) :
    (x.tdiv y).natAbs ≤ x.natAbs / 2 := by
  have small := (tmod_bounds x nonzero).1
  rw [Int.natAbs_tdiv]
  exact Nat.div_le_div_left (by omega) (by decide)

theorem apart_iff {rest side y : Int64} :
    (rest != 0 && decide (side < 0) != decide (y < 0)) = true ↔
      rest.toInt ≠ 0 ∧ ¬ (side.toInt < 0 ↔ y.toInt < 0) := by
  simp [Int64.lt_iff_toInt_lt, ← Int64.toInt_inj]

/-- Whether the quotient has to be brought down is asked of the dividend for the quotient, and of the
remainder for the remainder.  No step leaves the 64-bit integers. -/
theorem floorDivision_of_hasQuotient {x y : Int64} (divides : hasQuotient x y = true) :
    ∃ quotient rest, floorQuotient? x y = some quotient ∧ floorRemainder? x y = some rest ∧
      IsFloorDivision x.toInt y.toInt quotient.toInt rest.toInt := by
  have nonzero : y.toInt ≠ 0 := fun zero =>
    (hasQuotient_iff.mp divides).1 (Int64.toInt_inj.mp zero)
  have quotient := toInt_div_of_hasQuotient divides
  have rest := Int64.toInt_mod x y
  have sum := Int.tdiv_mul_add_tmod x.toInt y.toInt
  have bounds := tmod_bounds x.toInt nonzero
  have dividend := And.intro (least_le_toInt x) (toInt_le_greatest x)
  have divisor := And.intro (least_le_toInt y) (toInt_le_greatest y)
  have asked := @apart_iff (x % y) x y
  have askedOfRest := @apart_iff (x % y) (x % y) y
  simp only [floorQuotient?, floorRemainder?, divides, if_true, Option.some.injEq, exists_eq_left',
    exists_and_left]
  simp only [rest] at asked askedOfRest
  by_cases apart : x.toInt.tmod y.toInt ≠ 0 ∧ ¬ (x.toInt < 0 ↔ y.toInt < 0)
  · have half := natAbs_tdiv_of_tmod_ne_zero nonzero apart.1
    rw [if_pos (asked.mpr apart), if_pos (askedOfRest.mpr (by omega))]
    have one : (1 : Int64).toInt = 1 := rfl
    simp only [least, greatest] at dividend divisor
    have down : (x / y - 1).toInt = x.toInt.tdiv y.toInt - 1 := by
      rw [← quotient, ← one]
      apply toInt_sub_of_bounds <;> simp only [quotient, one, least, greatest] <;> omega
    have up : (x % y + y).toInt = x.toInt.tmod y.toInt + y.toInt := by
      rw [← rest]
      apply toInt_add_of_bounds <;> simp only [rest, least, greatest] <;> omega
    refine ⟨?_, ?_⟩
    · rw [down, up, Int.sub_mul]
      omega
    · rw [up]
      omega
  · rw [if_neg fun holds => apart (asked.mp holds),
      if_neg fun holds => apart (by have := askedOfRest.mp holds; omega)]
    refine ⟨?_, ?_⟩
    · rw [quotient, rest]
      exact sum
    · rw [rest]
      omega

theorem floorQuotient?_eq {x y : Int64} (nonzero : y ≠ 0) :
    floorQuotient? x y = bounded? ⌊(x.toInt : ℚ) / y.toInt⌋ := by
  have moves : y.toInt ≠ 0 := fun zero => nonzero (Int64.toInt_inj.mp zero)
  by_cases divides : hasQuotient x y = true
  · obtain ⟨quotient, rest, found, -, division⟩ := floorDivision_of_hasQuotient divides
    rw [found, division.floor_eq moves, bounded?_toInt]
  · rw [hasQuotient_iff] at divides
    obtain ⟨rfl, rfl⟩ : x = Int64.minValue ∧ y = -1 := by tauto
    have division : IsFloorDivision Int64.minValue.toInt (-1 : Int64).toInt 9223372036854775808 0 :=
      ⟨by decide, by decide⟩
    rw [division.floor_eq moves]
    decide

theorem outside_mul {n m : Int} (positive : 1 ≤ m) (outside : n < least ∨ greatest < n) :
    n * m < least ∨ greatest < n * m := by
  simp only [least, greatest] at outside ⊢
  rcases outside with below | above
  · exact .inl (by nlinarith)
  · exact .inr (by nlinarith)

/-- The size of the least integer is no square, so a square that has not 64 bits is greater. -/
theorem mul_self_ne (b : Int) : b * b ≠ 9223372036854775808 := by
  rcases le_or_gt |b| 3037000499 with small | large
  · have square := abs_mul_abs_self b
    have nonneg := abs_nonneg b
    nlinarith
  · have square := abs_mul_abs_self b
    nlinarith

theorem outside_of_square {result base : Int} (nonzero : result ≠ 0) {k : Nat} (taken : k ≠ 0)
    (outside : base * base < least ∨ greatest < base * base) :
    result * (base * base) ^ k < least ∨ greatest < result * (base * base) ^ k := by
  have other := mul_self_ne base
  have nonneg := mul_self_nonneg base
  simp only [least, greatest] at outside ⊢
  have grown : base * base ≤ (base * base) ^ k := le_self_pow₀ (by omega) taken
  rcases lt_or_gt_of_ne nonzero with negative | positive
  · have scaled := Int.mul_le_mul_of_nonneg_right (show result ≤ -1 by omega)
      (show 0 ≤ (base * base) ^ k by omega)
    exact .inl (by omega)
  · have scaled := Int.mul_le_mul_of_nonneg_right (show 1 ≤ result by omega)
      (show 0 ≤ (base * base) ^ k by omega)
    exact .inr (by omega)

/-- The lowest bit of an exponent is multiplied out, the others are left to the square. -/
theorem mul_pow_halved (result base : Int) (exponent : Nat) :
    result * base ^ exponent =
      result * base ^ (exponent % 2) * (base * base) ^ (exponent / 2) := by
  rw [← pow_two, ← pow_mul, mul_assoc, ← pow_add, Nat.mod_add_div]

theorem lowestBit_eq (result base : Int64) (exponent : Nat) :
    (if exponent % 2 = 1 then product? result base else some result) =
      bounded? (result.toInt * base.toInt ^ (exponent % 2)) := by
  rcases Nat.mod_two_eq_zero_or_one exponent with even | odd
  · rw [even, if_neg (by decide), pow_zero, mul_one, bounded?_toInt]
  · rw [odd, if_pos rfl, pow_one, product?]

theorem ne_zero_of_lowestBit {result base : Int64} {exponent : Nat}
    (refused : bounded? (result.toInt * base.toInt ^ (exponent % 2)) = none) : base.toInt ≠ 0 := by
  intro zero
  rcases Nat.mod_two_eq_zero_or_one exponent with even | odd
  · rw [even, pow_zero, mul_one, bounded?_toInt] at refused
    cases refused
  · rw [odd, zero, pow_one, mul_zero] at refused
    cases refused

theorem ne_zero_of_square {base : Int} (refused : bounded? (base * base) = none) : base ≠ 0 := by
  rintro rfl
  cases refused

/-- A product that is refused is refused with reason: the squares are those of a factor that is used, and
only a result of zero could make up for it. -/
theorem timesPower?_eq {result base : Int64} (exponent : Nat)
    (nonzero : result.toInt ≠ 0 ∨ base.toInt = 0) :
    timesPower? result base exponent = bounded? (result.toInt * base.toInt ^ exponent) := by
  induction exponent using Nat.strongRecOn generalizing result base with
  | ind exponent inductionHypothesis =>
      rw [timesPower?, lowestBit_eq, mul_pow_halved _ _ exponent]
      by_cases empty : exponent = 0
      · simp [empty]
      rw [if_neg empty]
      cases first : bounded? (result.toInt * base.toInt ^ (exponent % 2)) with
      | none =>
          have more : 1 ≤ (base.toInt * base.toInt) ^ (exponent / 2) :=
            pow_pos (mul_self_pos.mpr (ne_zero_of_lowestBit first)) _
          exact (bounded?_eq_none_iff.mpr (outside_mul more (bounded?_eq_none_iff.mp first))).symm
      | some product =>
          have isProduct := bounded?_eq_some_iff.mp first
          by_cases single : exponent = 1
          · simpa [single] using first.symm
          rw [Option.bind_some, if_neg single, ← isProduct, product?]
          have kept : base.toInt ≠ 0 → product.toInt ≠ 0 := fun other =>
            isProduct ▸ mul_ne_zero (nonzero.resolve_right other) (pow_ne_zero _ other)
          cases squared : bounded? (base.toInt * base.toInt) with
          | none =>
              have outside := outside_of_square (kept (ne_zero_of_square squared))
                (show exponent / 2 ≠ 0 by omega) (bounded?_eq_none_iff.mp squared)
              exact (bounded?_eq_none_iff.mpr outside).symm
          | some square =>
              have isSquare := bounded?_eq_some_iff.mp squared
              have further : product.toInt ≠ 0 ∨ square.toInt = 0 := by
                rw [isSquare, mul_self_eq_zero]
                tauto
              rw [Option.bind_some, inductionHypothesis _ (by omega) further, isSquare]

/-- A power of an integer greater than one in size has not 64 bits if its exponent has not. -/
theorem outside_of_large {base : Int} (large : 2 ≤ base.natAbs) {exponent : Nat}
    (long : 64 ≤ exponent) : base ^ exponent < least ∨ greatest < base ^ exponent := by
  have grown : 2 ^ 64 ≤ (base ^ exponent).natAbs := by
    rw [Int.natAbs_pow]
    calc 2 ^ 64 ≤ 2 ^ exponent := Nat.pow_le_pow_right (by decide) long
      _ ≤ base.natAbs ^ exponent := Nat.pow_le_pow_left large exponent
  simp only [least, greatest]
  omega

/-- Exponents that are not multiplied out belong to powers that are known at once or have not 64 bits. -/
theorem power?_eq (base : Int64) (exponent : Nat) :
    power? base exponent = bounded? (base.toInt ^ exponent) := by
  unfold power?
  by_cases small : exponent < 4294967296
  · rw [if_pos small, timesPower?_eq exponent (.inl (by decide))]
    change bounded? (1 * _) = _
    rw [one_mul]
  have taken : exponent ≠ 0 := by omega
  have one : (1 : Int64).toInt = 1 := rfl
  have minusOne : (-1 : Int64).toInt = -1 := rfl
  rw [if_neg small]
  by_cases zero : base = 0
  · subst zero
    change _ = bounded? (0 ^ exponent)
    rw [zero_pow taken]
    rfl
  by_cases still : base = 1
  · subst still
    rw [one, one_pow]
    rfl
  by_cases turned : base = -1
  · subst turned
    rw [minusOne]
    rcases Nat.even_or_odd exponent with even | odd
    · rw [even.neg_one_pow, Nat.even_iff.mp even]
      rfl
    · rw [odd.neg_one_pow, Nat.odd_iff.mp odd]
      rfl
  · have large : 2 ≤ base.toInt.natAbs := by
      have zero : base.toInt ≠ 0 := fun same => zero (Int64.toInt_inj.mp same)
      have still : base.toInt ≠ 1 := fun same => still (Int64.toInt_inj.mp same)
      have turned : base.toInt ≠ -1 := fun same => turned (Int64.toInt_inj.mp same)
      omega
    rw [bounded?_eq_none_iff.mpr (outside_of_large large (by omega))]
    simp [zero, still, turned]

end Stepwise.Number

namespace Stepwise.Run

open Number Script

/-- An action answers with an integer if that has 64 bits, and refuses it otherwise. -/
def Exactly (action : Action Value) (n : Int) : Prop :=
  ∀ heap, (∀ i : Int64, i.toInt = n → action heap = some (.ok (.int i), heap)) ∧
    (n < -2 ^ 63 ∨ 2 ^ 63 - 1 < n → action heap = some (.error .overflow, heap))

theorem exactly_checked (n : Int) : Exactly (numberValue (checked (bounded? n))) n := by
  intro heap
  constructor
  · rintro i rfl
    rw [bounded?_toInt]
    rfl
  · intro outside
    rw [bounded?_eq_none_iff.mpr (by simp only [least, greatest]; omega)]
    rfl

theorem exactly_floorDivide {x y : Int64} (nonzero : y ≠ 0) :
    Exactly (binary .floorDivide (.int x) (.int y)) ⌊(x.toInt : ℚ) / y.toInt⌋ := by
  have moves : y.toInt ≠ 0 := fun zero => nonzero (Int64.toInt_inj.mp zero)
  have result : intOperation .floorDivide x y = checked (floorQuotient? x y) := if_neg moves
  have exactly := exactly_checked ⌊(x.toInt : ℚ) / y.toInt⌋
  rwa [← floorQuotient?_eq nonzero, ← result] at exactly

theorem exactly_power {x y : Int64} (nonneg : 0 ≤ y.toInt) :
    Exactly (binary .power (.int x) (.int y)) (x.toInt ^ y.toInt.toNat) := by
  have result : intOperation .power x y = checked (power? x y.toInt.toNat) := if_pos nonneg
  have exactly := exactly_checked (x.toInt ^ y.toInt.toNat)
  rwa [← power?_eq, ← result] at exactly

/-- Sums, differences, products, quotients rounded down, powers, opposites and sizes of integers are
exact.  Only a quotient by zero is no integer. -/
theorem integers_exact (x y : Int64) :
    Exactly (binary .add (.int x) (.int y)) (x.toInt + y.toInt) ∧
    Exactly (binary .subtract (.int x) (.int y)) (x.toInt - y.toInt) ∧
    Exactly (binary .multiply (.int x) (.int y)) (x.toInt * y.toInt) ∧
    (if y = 0 then ∀ heap, binary .floorDivide (.int x) (.int y) heap =
        some (.error (.zeroDivision .intFloorDivision), heap)
      else Exactly (binary .floorDivide (.int x) (.int y)) ⌊(x.toInt : ℚ) / y.toInt⌋) ∧
    (0 ≤ y.toInt → Exactly (binary .power (.int x) (.int y)) (x.toInt ^ y.toInt.toNat)) ∧
    Exactly (unary .negate (.int x)) (-x.toInt) ∧
    Exactly (applyPlain .abs [.int x] []) |x.toInt| := by
  refine ⟨exactly_checked _, exactly_checked _, exactly_checked _, ?_, exactly_power,
    exactly_checked _, ?_⟩
  · split
    next zero =>
      subst zero
      exact fun heap => rfl
    next nonzero => exact exactly_floorDivide nonzero
  · rw [Int.abs_eq_natAbs]
    exact exactly_checked _

/-- The least integer is a power of -2.  Its opposite, the same power of 2, is refused. -/
theorem integers_exact_least :
    0 ≤ (63 : Int64).toInt ∧
      (∀ heap, binary .power (.int (-2)) (.int 63) heap =
        some (.ok (.int Int64.minValue), heap)) ∧
      ∀ heap, binary .power (.int 2) (.int 63) heap = some (.error .overflow, heap) := by
  have nonneg : 0 ≤ (63 : Int64).toInt := by decide
  refine ⟨nonneg, fun heap => ?_, fun heap => ?_⟩
  · obtain ⟨-, -, -, -, power, -⟩ := integers_exact (-2) 63
    exact (power nonneg heap).1 Int64.minValue (by decide)
  · obtain ⟨-, -, -, -, power, -⟩ := integers_exact 2 63
    exact (power nonneg heap).2 (.inr (by decide))

/-- A remainder goes with the quotient rounded down: it has the sign of the divisor and is less in size.
It is refused where the quotient has not 64 bits. -/
theorem modulo_of_floor {x y : Int64} (nonzero : y ≠ 0) (heap : Heap) :
    if x = Int64.minValue ∧ y = -1 then
      binary .modulo (.int x) (.int y) heap = some (.error .overflow, heap)
    else ∃ rest quotient : Int64,
      binary .modulo (.int x) (.int y) heap = some (.ok (.int rest), heap) ∧
      binary .floorDivide (.int x) (.int y) heap = some (.ok (.int quotient), heap) ∧
      (rest.toInt = 0 ∨ rest.toInt.sign = y.toInt.sign) ∧ |rest.toInt| < |y.toInt| ∧
      quotient.toInt = ⌊(x.toInt : ℚ) / y.toInt⌋ ∧
      x.toInt = quotient.toInt * y.toInt + rest.toInt := by
  have moves : y.toInt ≠ 0 := fun zero => nonzero (Int64.toInt_inj.mp zero)
  have result : intOperation .modulo x y = checked (floorRemainder? x y) := if_neg moves
  have quotientResult : intOperation .floorDivide x y = checked (floorQuotient? x y) := if_neg moves
  split
  next least =>
    obtain ⟨rfl, rfl⟩ := least
    rfl
  next divides =>
    obtain ⟨quotient, rest, found, foundRest, division⟩ :=
      floorDivision_of_hasQuotient (hasQuotient_iff.mpr ⟨nonzero, divides⟩)
    rw [found] at quotientResult
    rw [foundRest] at result
    refine ⟨rest, quotient, ?_, ?_, division.eq_zero_or_sign_eq, division.abs_lt_abs,
      (division.floor_eq moves).symm, division.sum.symm⟩
    · change numberValue (intOperation .modulo x y) heap = _
      rw [result]
      rfl
    · change numberValue (intOperation .floorDivide x y) heap = _
      rw [quotientResult]
      rfl

/-- The remainder of the least integer by 3 has the sign of 3, although the machine leaves -2. -/
theorem modulo_of_floor_least :
    (3 : Int64) ≠ 0 ∧ ∀ heap, binary .modulo (.int Int64.minValue) (.int 3) heap =
      some (.ok (.int 1), heap) := by
  have nonzero : (3 : Int64) ≠ 0 := by decide
  refine ⟨nonzero, fun heap => ?_⟩
  obtain ⟨rest, quotient, found, -, side, less, -, sum⟩ :=
    (if_neg (by decide)).mp (modulo_of_floor (x := Int64.minValue) nonzero heap)
  have same : rest = 1 := by
    apply Int64.toInt_inj.mp
    have divisor : (3 : Int64).toInt = 3 := by decide
    have dividend : Int64.minValue.toInt = -9223372036854775808 := by decide
    have one : (1 : Int64).toInt = 1 := by decide
    have nonneg : rest.toInt = 0 ∨ 0 < rest.toInt := side.imp_right Int.sign_eq_one_iff_pos.mp
    have below : rest.toInt < 3 := (abs_lt.mp less).2
    rw [divisor] at sum
    omega
  rw [found, same]

end Stepwise.Run
