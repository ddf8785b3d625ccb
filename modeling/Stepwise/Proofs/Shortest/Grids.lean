import Stepwise.Proofs.Shortest.Intervals

/-!
The shortest decimal of a double rounds to it.

The decimal is taken from the coarsest grid that has a number in the interval of the double.  At the
latest the grid of seventeen digits has one, since its spacing is less than the length of the interval.
-/

namespace Stepwise.Number

open Binary

def Decimal.value (decimal : Decimal) : ℚ := decimal.digits * 10 ^ decimal.exponent

variable {m n d : Nat} {p place : Int}

theorem pow_ten_pos (e : Nat) : (0 : ℚ) < (Nat.pow 10 e : Nat) := by
  exact_mod_cast Nat.pow_pos (by norm_num : 0 < 10)

theorem pow_ten_toNat (place : Int) : ((Nat.pow 10 place.toNat : Nat) : ℚ) =
    10 ^ place * (Nat.pow 10 (-place).toNat : Nat) := by
  have ten : (10 : ℚ) ≠ 0 := by norm_num
  exact_mod_cast pow_toNat ten place

namespace Interval

/-- The scale of an interval and its denominator are a power of two as a quotient. -/
theorem scale_ofBinary (p : Int) :
    ((Nat.pow 2 (p - 2).toNat : Nat) : ℚ) = 2 ^ p / 4 * (Nat.pow 2 (2 - p).toNat : Nat) := by
  have split := pow_toNat (two_ne_zero (α := ℚ)) (p - 2)
  have fourth : (2 : ℚ) ^ (p - 2) = 2 ^ p / 4 := by
    rw [zpow_sub₀ two_ne_zero]
    norm_num
  rw [fourth, neg_sub] at split
  exact_mod_cast split

theorem denominator_pos (m : Nat) (p : Int) : 0 < (ofBinary m p).denominator := Nat.two_pow_pos _

theorem value_ofBinary (m : Nat) (p : Int) :
    ((ofBinary m p).value : ℚ) = m * 2 ^ p * (ofBinary m p).denominator := by
  simp only [ofBinary, Nat.cast_mul, scale_ofBinary]
  push_cast
  ring

theorem low_ofBinary (positive : 0 < m) (p : Int) :
    ((ofBinary m p).low : ℚ) = lowerEnd m p * (ofBinary m p).denominator := by
  have near : (m == hiddenBit && decide (leastExponent < p)) = decide (NearBelow m p) := by
    rw [Bool.beq_eq_decide_eq, ← Bool.decide_and]
    rfl
  simp only [ofBinary, Nat.cast_mul, scale_ofBinary, near, lowerEnd, decide_eq_true_eq]
  rw [Nat.cast_sub (by split <;> omega)]
  split <;> push_cast <;> ring

theorem high_ofBinary (m : Nat) (p : Int) :
    ((ofBinary m p).high : ℚ) = upperEnd m p * (ofBinary m p).denominator := by
  simp only [ofBinary, Nat.cast_mul, scale_ofBinary, upperEnd]
  push_cast
  ring

section

variable {whole unit : Nat} {bound : ℚ} (known : (whole : ℚ) = bound * unit) (unitPos : 0 < unit)
  (positive : 0 < d)

include known unitPos positive

theorem mul_le_mul_iff_le_div : whole * d ≤ n * unit ↔ bound ≤ (n : ℚ) / d := by
  have size : (0 : ℚ) < unit := by exact_mod_cast unitPos
  have part : (0 : ℚ) < d := by exact_mod_cast positive
  rw [← Nat.cast_le (α := ℚ), Nat.cast_mul, Nat.cast_mul, known, mul_right_comm,
    mul_le_mul_iff_left₀ size, le_div_iff₀ part]

theorem mul_le_mul_iff_div_le : n * unit ≤ whole * d ↔ (n : ℚ) / d ≤ bound := by
  have size : (0 : ℚ) < unit := by exact_mod_cast unitPos
  have part : (0 : ℚ) < d := by exact_mod_cast positive
  rw [← Nat.cast_le (α := ℚ), Nat.cast_mul, Nat.cast_mul, known, mul_right_comm,
    mul_le_mul_iff_left₀ size, div_le_iff₀ part]

end

theorem contains_ofBinary_iff (positive : 0 < m) (unit : 0 < d) :
    (ofBinary m p).contains n d = true ↔ Rounds m p ((n : ℚ) / d) := by
  have denominator := denominator_pos m p
  have low := low_ofBinary positive p
  have high := high_ofBinary m p
  have closed : (ofBinary m p).closed = (m % 2 == 0) := rfl
  rw [contains, closed, Rounds]
  by_cases even : m % 2 = 0
  · simp only [even, beq_self_eq_true, if_true, Bool.and_eq_true, decide_eq_true_eq,
      mul_le_mul_iff_le_div low denominator unit, mul_le_mul_iff_div_le high denominator unit]
  · have apart : (m % 2 == 0) = false := beq_eq_false_iff_ne.mpr even
    simp only [even, apart, Bool.false_eq_true, if_false, Bool.and_eq_true, decide_eq_true_eq,
      ← not_le, mul_le_mul_iff_le_div high denominator unit,
      mul_le_mul_iff_div_le low denominator unit]

def reaches (interval : Interval) (place : Int) (digits : Nat) : Bool :=
  interval.contains (digits * Nat.pow 10 place.toNat) (Nat.pow 10 (-place).toNat)

/-- The number on a grid right below the value of the interval, or at it. -/
def below (interval : Interval) (place : Int) : Nat :=
  interval.value * Nat.pow 10 (-place).toNat / (interval.denominator * Nat.pow 10 place.toNat)

theorem onGrid?_cases (interval : Interval) (tie : Tie) (place : Int) :
    (∃ digits, interval.onGrid? tie place = some digits ∧ interval.reaches place digits = true) ∨
      interval.onGrid? tie place = none ∧
        interval.reaches place (interval.below place) = false ∧
          interval.reaches place (interval.below place + 1) = false := by
  cases found : interval.onGrid? tie place with
  | none =>
      right
      unfold onGrid? at found
      simp only at found
      split at found
      · next here hereToo => exact ⟨rfl, here, hereToo⟩
      · cases found
      · cases found
      · split at found
        · cases found
        · cases found
        · cases tie <;> cases found
  | some digits =>
      refine .inl ⟨digits, rfl, ?_⟩
      unfold onGrid? at found
      simp only at found
      split at found
      · cases found
      · next here hereToo => exact Option.some.inj found ▸ here
      · next here hereToo => exact Option.some.inj found ▸ hereToo
      · next here hereToo =>
          split at found
          · exact Option.some.inj found ▸ here
          · exact Option.some.inj found ▸ hereToo
          · cases tie with
            | toEven =>
                rw [← Option.some.inj found]
                split
                · exact here
                · exact hereToo
            | upward => exact Option.some.inj found ▸ hereToo

theorem reaches_ofBinary_iff (positive : 0 < m) (place : Int) (digits : Nat) :
    (ofBinary m p).reaches place digits = true ↔ Rounds m p (digits * 10 ^ place) := by
  have down := pow_ten_pos (-place).toNat
  have grid : ((digits * Nat.pow 10 place.toNat : Nat) : ℚ) / (Nat.pow 10 (-place).toNat : Nat) =
      digits * 10 ^ place := by
    rw [div_eq_iff down.ne', Nat.cast_mul, pow_ten_toNat, mul_assoc]
  rw [reaches, contains_ofBinary_iff positive (by exact_mod_cast down), grid]

theorem onGrid?_rounds {tie : Tie} {digits : Nat} (positive : 0 < m)
    (found : (ofBinary m p).onGrid? tie place = some digits) : Rounds m p (digits * 10 ^ place) := by
  rcases (ofBinary m p).onGrid?_cases tie place with ⟨_, known, reached⟩ | ⟨missed, -⟩
  · rw [found, Option.some.injEq] at known
    exact (reaches_ofBinary_iff positive place digits).mp (known ▸ reached)
  · rw [found] at missed
    cases missed

theorem below_bounds (m : Nat) (p place : Int) :
    ((ofBinary m p).below place : ℚ) * 10 ^ place ≤ m * 2 ^ p ∧
      (m : ℚ) * 2 ^ p < ((ofBinary m p).below place + 1 : Nat) * 10 ^ place := by
  have unit : (0 : ℚ) < (ofBinary m p).denominator * (Nat.pow 10 (-place).toNat : Nat) :=
    mul_pos (by exact_mod_cast denominator_pos m p) (pow_ten_pos _)
  have size : ((ofBinary m p).value * Nat.pow 10 (-place).toNat : Nat) =
      (m : ℚ) * 2 ^ p * ((ofBinary m p).denominator * (Nat.pow 10 (-place).toNat : Nat)) := by
    rw [Nat.cast_mul, value_ofBinary]
    ring
  have grid : (((ofBinary m p).denominator * Nat.pow 10 place.toNat : Nat) : ℚ) =
      10 ^ place * ((ofBinary m p).denominator * (Nat.pow 10 (-place).toNat : Nat)) := by
    rw [Nat.cast_mul, pow_ten_toNat]
    ring
  have gridPos : 0 < (ofBinary m p).denominator * Nat.pow 10 place.toNat :=
    Nat.mul_pos (denominator_pos m p) (Nat.pow_pos (by norm_num))
  constructor
  · rw [← mul_le_mul_iff_left₀ unit, ← size, mul_assoc, ← grid]
    exact_mod_cast Nat.div_mul_le_self _ _
  · rw [← mul_lt_mul_iff_left₀ unit, ← size, mul_assoc, ← grid]
    exact_mod_cast Nat.lt_mul_of_div_lt (Nat.lt_succ_self _) gridPos

theorem onGrid?_of_fine (tie : Tie) (fits : Fits m p) (positive : 0 < m)
    (fine : (10 : ℚ) ^ place * 10 ^ 16 ≤ m * 2 ^ p) :
    ∃ digits, (ofBinary m p).onGrid? tie place = some digits := by
  rcases (ofBinary m p).onGrid?_cases tie place with ⟨digits, found, -⟩ | ⟨-, missed, missedToo⟩
  · exact ⟨digits, found⟩
  obtain ⟨lower, upper⟩ := below_bounds m p place
  have unit : (0 : ℚ) < 2 ^ p := by positivity
  have above := lowerEnd_lt m p
  have beneath := lt_upperEnd m p
  -- the spacing of the grid is less than the length of the interval
  have spacing : lowerEnd m p + 10 ^ place < upperEnd m p := by
    have size : (m : ℚ) < 9007199254740992 := by exact_mod_cast fits.lt
    have scaled := mul_lt_mul_of_pos_right size unit
    unfold lowerEnd upperEnd
    by_cases near : NearBelow m p
    · have least : (m : ℚ) = 4503599627370496 := by exact_mod_cast near.1
      rw [if_pos near]
      rw [least] at fine ⊢
      linarith
    · rw [if_neg near]
      linarith
  have outside : ((ofBinary m p).below place : ℚ) * 10 ^ place ≤ lowerEnd m p := by
    by_contra inside
    rw [not_le] at inside
    have reached := (reaches_ofBinary_iff positive place _).mpr
      (rounds_of_inside inside (lower.trans_lt beneath))
    rw [missed] at reached
    cases reached
  have reached := (reaches_ofBinary_iff positive place _).mpr
    (rounds_of_inside (above.trans upper) (by push_cast; linarith))
  rw [missedToo] at reached
  cases reached

end Interval

theorem firstGrid_rounds (tie : Tie) (fits : Fits m p) (positive : 0 < m) {fuel : Nat} {place : Int}
    (fine : (10 : ℚ) ^ (place - fuel) * 10 ^ 16 ≤ m * 2 ^ p) :
    Rounds m p (firstGrid (.ofBinary m p) tie (fuel + 1) place).value := by
  induction fuel generalizing place with
  | zero =>
      obtain ⟨digits, found⟩ := Interval.onGrid?_of_fine tie fits positive (by simpa using fine)
      rw [firstGrid, found]
      exact Interval.onGrid?_rounds positive found
  | succ fuel inductionHypothesis =>
      rw [firstGrid]
      cases found : (Interval.ofBinary m p).onGrid? tie place with
      | some digits => exact Interval.onGrid?_rounds positive found
      | none =>
          refine inductionHypothesis ?_
          have same : place - 1 - (fuel : Int) = place - (fuel + 1 : Nat) := by
            push_cast
            ring
          rwa [same]

theorem pow_digitCount_le (positive : 0 < n) : 10 ^ (digitCount n - 1) ≤ n := by
  rcases Nat.eq_zero_or_pos (digitCount n - 1) with single | several
  · rwa [single]
  · refine not_lt.mp fun less => ?_
    have short := (Nat.length_toDigits_le_iff (by decide) several).mpr less
    rw [← digitCount] at short
    omega

theorem lt_pow_digitCount (n : Nat) : n < 10 ^ digitCount n :=
  (Nat.length_toDigits_le_iff (by decide) Nat.length_toDigits_pos).mp le_rfl

theorem pow_leadingPlace_le (positive : 0 < n) (unit : 0 < d) :
    (10 : ℚ) ^ leadingPlace n d ≤ n / d := by
  have part : (0 : ℚ) < d := by exact_mod_cast unit
  have ten : (10 : ℚ) ≠ 0 := by norm_num
  rw [le_div_iff₀ part]
  unfold leadingPlace
  simp only
  split
  · next reached =>
      have down := pow_ten_pos (-((digitCount n : Int) - digitCount d)).toNat
      have scaled : ((d * Nat.pow 10 ((digitCount n : Int) - digitCount d).toNat : Nat) : ℚ) ≤
          (n * Nat.pow 10 (-((digitCount n : Int) - digitCount d)).toNat : Nat) := by
        exact_mod_cast reached
      rw [Nat.cast_mul, Nat.cast_mul, pow_ten_toNat, ← mul_assoc,
        mul_le_mul_iff_left₀ down] at scaled
      rwa [mul_comm]
  · have size : (10 : ℚ) ^ (digitCount n - 1) ≤ n := by exact_mod_cast pow_digitCount_le positive
    have bound : (d : ℚ) < 10 ^ digitCount d := by exact_mod_cast lt_pow_digitCount d
    have filled : 0 < digitCount n := Nat.length_toDigits_pos
    calc (10 : ℚ) ^ ((digitCount n : Int) - digitCount d - 1) * d
        ≤ 10 ^ ((digitCount n : Int) - digitCount d - 1) * 10 ^ digitCount d := by gcongr
      _ = 10 ^ (digitCount n - 1) := by
          rw [← zpow_natCast, ← zpow_natCast, ← zpow_add₀ ten]
          congr 1
          omega
      _ ≤ n := size

theorem trimmed_value (fuel : Nat) (decimal : Decimal) :
    (decimal.trimmed fuel).value = decimal.value := by
  induction fuel generalizing decimal with
  | zero => rfl
  | succ fuel inductionHypothesis =>
      obtain ⟨digits, exponent⟩ := decimal
      rw [Decimal.trimmed]
      split
      · next ends =>
          have whole : (digits : ℚ) = (digits / 10 : Nat) * 10 := by
            exact_mod_cast (Nat.div_mul_cancel (Nat.dvd_of_mod_eq_zero ends.2)).symm
          rw [inductionHypothesis, Decimal.value, Decimal.value, zpow_add_one₀ (by norm_num), whole]
          ring
      · rfl

theorem shortest_rounds (tie : Tie) (fits : Fits m p) (positive : 0 < m) :
    Rounds m p (shortest tie m p).value := by
  rw [shortest, trimmed_value]
  refine firstGrid_rounds tie fits positive ?_
  have denominator := Interval.denominator_pos m p
  have value := Interval.value_ofBinary m p
  have size : 0 < (Interval.ofBinary m p).value :=
    Nat.mul_pos (Nat.mul_pos (by norm_num) positive) (Nat.two_pow_pos _)
  have part : (0 : ℚ) < (Interval.ofBinary m p).denominator := by exact_mod_cast denominator
  have leads := pow_leadingPlace_le size denominator
  rw [value, mul_div_cancel_right₀ _ part.ne'] at leads
  rw [← zpow_natCast, ← zpow_add₀ (by norm_num)]
  exact (le_of_eq (congrArg _ (by push_cast; ring))).trans leads

end Stepwise.Number
