import Stepwise.Proofs.Doubles

/-!
Integers rounded to doubles.

A double keeps the leading 53 bits of an integer, rounded to the nearest one; ties go to the even one.
The rounding is followed through the shifts and products by which doubles are computed.
-/

namespace Stepwise.Number

open Float.Model (Format totalExponent)
open Float.Model.UnpackedFloat

theorem bounds_of_log2 {n k : Nat} (size : n.log2 = 52 + k) : 2 ^ (52 + k) ≤ n ∧ n < 2 ^ (53 + k) := by
  have nonzero : n ≠ 0 := by
    rintro rfl
    rw [Nat.log2_zero] at size
    omega
  have bounds := (Nat.log2_eq_iff nonzero).mp size
  rwa [show 52 + k + 1 = 53 + k by ring] at bounds

namespace Binary

variable {m k : Nat}

@[simp]
theorem quotient_zero (m : Nat) : quotient .halfToEven false m 0 = m := by
  simp [quotient, Nat.mod_one]

theorem quotient_mul_two_pow (m k more : Nat) :
    quotient .halfToEven false (m * 2 ^ more) (k + more) = quotient .halfToEven false m k := by
  have unit := Nat.two_pow_pos more
  simp only [quotient, Nat.pow_eq, Nat.pow_add, Nat.mul_div_mul_right _ _ unit,
    Nat.mul_mod_mul_right]
  simp only [← Nat.mul_assoc, Nat.mul_lt_mul_right unit]

theorem quotient_mul (m k : Nat) : quotient .halfToEven false (m * 2 ^ k) k = m := by
  simpa using quotient_mul_two_pow m 0 k

theorem quotient_bounds (m k : Nat) :
    m / 2 ^ k ≤ quotient .halfToEven false m k ∧
      quotient .halfToEven false m k ≤ m / 2 ^ k + 1 := by
  simp only [quotient, Nat.pow_eq]
  split_ifs <;> omega

/-- The leading 53 bits, rounded, have 53 bits unless the rounding carries beyond them. -/
theorem quotient_bits (size : m.log2 = 52 + k) :
    2 ^ 52 ≤ quotient .halfToEven false m k ∧ quotient .halfToEven false m k ≤ 2 ^ 53 := by
  have bounds := quotient_bounds m k
  have lower : 2 ^ 52 ≤ m / 2 ^ k := by
    rw [Nat.le_div_iff_mul_le (Nat.two_pow_pos k), ← Nat.pow_add]
    exact (bounds_of_log2 size).1
  have upper : m / 2 ^ k < 2 ^ 53 := by
    rw [Nat.div_lt_iff_lt_mul (Nat.two_pow_pos k), ← Nat.pow_add]
    exact (bounds_of_log2 size).2
  omega

end Binary

theorem log2_mul_two_pow {n : Nat} (positive : 0 < n) (more : Nat) :
    (n * 2 ^ more).log2 = n.log2 + more := by
  induction more with
  | zero => simp
  | succ more inductionHypothesis =>
      rw [Nat.pow_succ, ← Nat.mul_assoc, Nat.mul_comm, Nat.log2_two_mul (by positivity),
        inductionHypothesis, Nat.add_assoc]

theorem log2_le_of_lt {n j : Nat} (small : n < 2 ^ (j + 1)) : n.log2 ≤ j := by
  rcases Nat.eq_zero_or_pos n with rfl | positive
  · simp
  · have := (Nat.log2_lt positive.ne').mpr small
    omega

/-- A shift keeps one bit for the half of what it cuts off, and one for the rest. -/
theorem shift_exact (m k : Nat) :
    ExtendedMantissa.ofMantissaAndAccuracy m .exact >>> k =
      ⟨m / 2 ^ k, decide (2 ^ k ≤ 2 * (m % 2 ^ k)),
        decide (m % 2 ^ k ≠ 0 ∧ 2 * (m % 2 ^ k) ≠ 2 ^ k)⟩ := by
  induction k with
  | zero =>
      simp [HShiftRight.hShiftRight, Nat.repeat, ExtendedMantissa.ofMantissaAndAccuracy, Nat.mod_one]
  | succ k inductionHypothesis =>
      change ExtendedMantissa.shiftRightOne
        (ExtendedMantissa.ofMantissaAndAccuracy m .exact >>> k) = _
      have rest : m % 2 ^ k < 2 ^ k := Nat.mod_lt _ (Nat.two_pow_pos k)
      rw [inductionHypothesis, ExtendedMantissa.shiftRightOne, Nat.mod_pow_succ, Nat.pow_succ,
        ← Nat.div_div_eq_div_mul]
      simp only [ExtendedMantissa.mk.injEq, true_and, ← Bool.decide_or, decide_eq_decide]
      rcases Nat.mod_two_eq_zero_or_one (m / 2 ^ k) with even | odd
      · rw [even]
        simp
        omega
      · rw [odd]
        simp
        omega

theorem roundedMantissa_shift (m k : Nat) :
    (ExtendedMantissa.ofMantissaAndAccuracy m .exact >>> k).roundedMantissa =
      Binary.quotient .halfToEven false m k := by
  have unit : 0 < 2 ^ k := Nat.two_pow_pos k
  rw [shift_exact, ExtendedMantissa.roundedMantissa, Binary.quotient]
  simp only [Nat.pow_eq, beq_iff_eq]
  rcases lt_trichotomy (2 * (m % 2 ^ k)) (2 ^ k) with below | half | above
  · rw [if_pos below, decide_eq_false (by omega)]
    by_cases whole : m % 2 ^ k = 0
    · rw [decide_eq_false (by omega)]
      rfl
    · rw [decide_eq_true (by omega)]
      rfl
  · rw [if_neg (by omega), if_neg (by omega), decide_eq_true (by omega), decide_eq_false (by omega)]
    change m / 2 ^ k + m / 2 ^ k % 2 = _
    split <;> omega
  · rw [if_neg (by omega), if_pos above, decide_eq_true (by omega), decide_eq_true (by omega)]
    rfl

theorem shiftToTargetExponent_eq {m k : Nat} {e target : Int} (accuracy : Accuracy)
    (size : m.log2 = 52 + k) (reached : e + k = target) (least : -1074 ≤ target) :
    shiftToTargetExponent .binary64 m e accuracy =
      (ExtendedMantissa.ofMantissaAndAccuracy m accuracy >>> k, target) := by
  subst reached
  have target : Format.binary64.targetExponent (totalExponent m e) = e + k := by
    simp only [Format.targetExponent, totalExponent, Format.mantissaBits, Format.minExponent]
    norm_num
    omega
  have shift : (e + (k : Int) - e).toNat = k := by omega
  rw [shiftToTargetExponent, target, shiftToExponent, shift]

theorem roundWithAccuracy_eq (s : Sign) {m size : Nat} {e middle exponent : Int}
    {accuracy : Accuracy} {first last : ExtendedMantissa}
    (shifted : shiftToTargetExponent .binary64 m e accuracy = (first, middle))
    (nearest : first.roundedMantissa = size)
    (again : shiftToTargetExponent .binary64 size middle .exact = (last, exponent))
    (positive : 0 < last.mantissa) :
    roundWithAccuracy .binary64 s m e accuracy = .finite s last.mantissa exponent positive := by
  unfold roundWithAccuracy
  simp only [shifted, nearest, again, dif_neg (Nat.ne_of_gt positive)]

theorem unpack_pack_of_full (s : Sign) {m : Nat} {e : Int} (positive : 0 < m) (size : m.log2 = 52)
    (least : -1074 ≤ e) (greatest : e ≤ 971) :
    (Float.Model.pack (.finite s m e positive)).unpack = .finite s m e positive := by
  have bounds := (Nat.log2_eq_iff (by omega)).mp size
  have exponent : (BitVec.ofNat 11 (e + 1075).toNat).toNat = (e + 1075).toNat := by
    rw [BitVec.toNat_ofNat, Nat.mod_eq_of_lt (by omega)]
  have leading : (1#1 ++ BitVec.ofNat 52 m).toNat = m := by
    rw [BitVec.toNat_append, ← Nat.shiftLeft_add_eq_or_of_lt (BitVec.isLt _)]
    simp only [BitVec.toNat_ofNat, Nat.shiftLeft_eq]
    omega
  have notFull : BitVec.ofNat 11 (e + 1075).toNat ≠ -1#11 := by
    rw [Ne, ← BitVec.toNat_inj, exponent]
    change ¬ _ = 2047
    omega
  have filled : BitVec.ofNat 11 (e + 1075).toNat ≠ 0#11 := by
    rw [Ne, ← BitVec.toNat_inj, exponent]
    change ¬ _ = 0
    omega
  have packed : pack .binary64 (.finite s m e positive) =
      packComponents .binary64 s (BitVec.ofNat 11 (e + 1075).toNat) (BitVec.ofNat 52 m) := by
    have inside : ¬ 2 ^ Format.binary64.exponentBits ≤ (e + Format.binary64.exponentBias +
        Format.binary64.mantissaBitsWithoutImplicit).toNat + 1 := by
      change ¬ 2048 ≤ (e + 1023 + 52).toNat + 1
      omega
    rw [pack, if_neg inside, if_pos (by rw [size]; rfl)]
    change packComponents .binary64 s (BitVec.ofNat 11 (e + 1023 + 52).toNat) _ = _
    rw [Int.add_assoc]
    rfl
  change unpack .binary64 (pack .binary64 (.finite s m e positive)) = _
  rw [packed, unpack]
  simp only [unpackSign_packComponents, unpackExponent_packComponents,
    unpackMantissa_packComponents, Sign.ofBitVec_toBitVec]
  rw [if_neg notFull, if_neg filled]
  congr 1
  change ((BitVec.ofNat 11 (e + 1075).toNat).toNat : Int) - ((1023 : Nat) + (52 : Nat)) = e
  omega

/-- A significand that has all bits after it was rounded is kept.  If the rounding carries beyond them,
the exponent is one more. -/
theorem unpack_of_roundedMantissa (s : Sign) {m size : Nat} {e target : Int} {accuracy : Accuracy}
    {first : ExtendedMantissa}
    (shifted : shiftToTargetExponent .binary64 m e accuracy = (first, target))
    (nearest : first.roundedMantissa = size) (bounds : 2 ^ 52 ≤ size ∧ size ≤ 2 ^ 53)
    (least : -1074 ≤ target) (greatest : target < 971) :
    ∃ (significand : Nat) (exponent : Int) (positive : 0 < significand),
      (Float.Model.pack (roundWithAccuracy .binary64 s m e accuracy)).unpack =
        .finite s significand exponent positive ∧
      significand.log2 = 52 ∧ target ≤ exponent ∧ exponent ≤ target + 1 ∧
      (significand : ℚ) * 2 ^ exponent = size * 2 ^ target := by
  rcases Nat.lt_or_eq_of_le bounds.2 with fits | full
  · have leading : size.log2 = 52 := (Nat.log2_eq_iff (by omega)).mpr ⟨bounds.1, fits⟩
    have again := shiftToTargetExponent_eq .exact leading (Int.add_zero target) least
    have positive : 0 < size := by omega
    have rounds : roundWithAccuracy .binary64 s m e accuracy = .finite s size target positive :=
      roundWithAccuracy_eq s shifted nearest again positive
    refine ⟨size, target, positive, ?_, leading, le_rfl, by omega, rfl⟩
    rw [rounds, unpack_pack_of_full _ _ leading least (by omega)]
  · subst full
    have again :=
      shiftToTargetExponent_eq .exact Nat.log2_two_pow (Eq.refl (target + 1)) (by omega)
    have positive : 0 < 2 ^ 52 := by decide
    have rounds : roundWithAccuracy .binary64 s m e accuracy =
        .finite s (2 ^ 52) (target + 1) positive :=
      roundWithAccuracy_eq s shifted nearest again positive
    refine ⟨2 ^ 52, target + 1, positive, ?_, Nat.log2_two_pow, by omega, le_rfl, ?_⟩
    · rw [rounds, unpack_pack_of_full _ _ Nat.log2_two_pow (by omega) (by omega)]
    · rw [zpow_add_one₀ two_ne_zero]
      push_cast
      ring

theorem unpack_roundWithAccuracy (s : Sign) {m k : Nat} {e : Int} (size : m.log2 = 52 + k)
    (least : -1074 ≤ e + k) (greatest : e + k < 971) :
    ∃ (significand : Nat) (exponent : Int) (positive : 0 < significand),
      (Float.Model.pack (roundWithAccuracy .binary64 s m e .exact)).unpack =
        .finite s significand exponent positive ∧
      significand.log2 = 52 ∧ e + k ≤ exponent ∧ exponent ≤ e + k + 1 ∧
      (significand : ℚ) * 2 ^ exponent = Binary.quotient .halfToEven false m k * 2 ^ (e + k) :=
  unpack_of_roundedMantissa s (shiftToTargetExponent_eq .exact size rfl least)
    (roundedMantissa_shift m k) (Binary.quotient_bits size) least greatest

def signFactor (s : Sign) : ℚ := if s == .negative then -1 else 1

@[simp]
theorem signFactor_positive : signFactor .positive = 1 := rfl

theorem value?_of_unpack {x : Float} {s : Sign} {m : Nat} {e : Int} {positive : 0 < m}
    (unpacked : x.toModel.unpack = .finite s m e positive) :
    value? x = some (signFactor s * ((m : ℚ) * 2 ^ e)) := by
  rw [value?, Binary.ofFloat_eq, unpacked]
  rfl

theorem value?_of_roundWithAccuracy {x : Float} {s : Sign} {m k : Nat} {e : Int}
    (packed : x.toModel = Float.Model.pack (roundWithAccuracy .binary64 s m e .exact))
    (size : m.log2 = 52 + k) (least : -1074 ≤ e + k) (greatest : e + k < 971) :
    value? x =
      some (signFactor s * ((Binary.quotient .halfToEven false m k : ℚ) * 2 ^ (e + k))) := by
  obtain ⟨significand, exponent, positive, unpacked, -, -, -, same⟩ :=
    unpack_roundWithAccuracy s size least greatest
  rw [← packed] at unpacked
  rw [value?_of_unpack unpacked, same]

theorem toModel_ofNat_of_large {n : Nat} (large : 2 ^ 53 ≤ n) :
    (Float.ofNat n).toModel =
      Float.Model.pack (roundWithAccuracy .binary64 .positive (n * 2 ^ 53) (-53) .exact) := by
  have least : ¬ (0 : Int) < -(2 ^ 11 + n.log2) := by omega
  change (Float.ofScientific n false 0).toModel = _
  rw [Float.ofScientific, dif_neg (by omega)]
  change Float.Model.pack (Float.Model.UnpackedFloat.ofScientific .binary64 n 0) = _
  rw [Float.Model.UnpackedFloat.ofScientific, dif_neg (by omega), if_neg (by decide),
    if_neg least, if_pos le_rfl]
  change Float.Model.pack
    (roundWithAccuracy .binary64 .positive (n <<< 53 * 1) (-53 + 0) .exact) = _
  rw [Nat.mul_one, Nat.shiftLeft_eq, Int.add_zero]

theorem value?_ofNat_of_large {n : Nat} (large : 2 ^ 53 ≤ n) (fits : n.log2 < 1000) :
    value? (Float.ofNat n) =
      some ((Binary.quotient .halfToEven false n (n.log2 - 52) * 2 ^ (n.log2 - 52) : Nat) : ℚ) := by
  have leading : 53 ≤ n.log2 := (Nat.le_log2 (by omega)).mpr large
  have size : (n * 2 ^ 53).log2 = 52 + (n.log2 - 52 + 53) := by
    rw [log2_mul_two_pow (by omega)]
    omega
  have places : (-53 + (n.log2 - 52 + 53 : Nat) : Int) = (n.log2 - 52 : Nat) := by omega
  rw [value?_of_roundWithAccuracy (toModel_ofNat_of_large large) size (by omega) (by omega),
    Binary.quotient_mul_two_pow, places, signFactor_positive, one_mul]
  push_cast
  rfl

theorem toModel_toFloat_of_small {n : Nat} (positive : 0 < n) (small : n < 2 ^ 53) :
    n.toUInt64.toFloat.toModel =
      Float.Model.pack (roundWithAccuracy .binary64 .positive (n * 2 ^ (52 - n.log2)) (n.log2 - 52)
        .exact) := by
  have leading := log2_le_of_lt small
  have same : n.toUInt64.toNat = n := by
    simp
    omega
  have order : compare (n : Int) 0 = .gt := Int.compare_eq_gt.mpr (by omega)
  have target : Format.binary64.targetExponent (totalExponent n 0) = n.log2 - 52 := by
    simp only [Format.targetExponent, totalExponent, Format.mantissaBits, Format.minExponent]
    norm_num
    omega
  have shift : (0 - ((n.log2 : Int) - 52)).toNat = 52 - n.log2 := by omega
  change Float.Model.pack
    (Float.Model.UnpackedFloat.normalize .binary64 n.toUInt64.toNat 0 .positive) = _
  rw [same, Float.Model.UnpackedFloat.normalize, order]
  simp only [Float.Model.UnpackedFloat.round, Int.toNat_natCast, target, decreaseExponent, shift,
    Nat.shiftLeft_eq]
  congr 2
  omega

theorem unpack_one :
    Float.exactlyRepresentablePowersOfTen[0].toModel.unpack =
      .finite .positive (2 ^ 52) (-52) (by decide) := by
  have packed : Float.exactlyRepresentablePowersOfTen[0].toModel =
      Float.Model.pack (.finite .positive (2 ^ 52) (-52) (by decide)) := rfl
  rw [packed, unpack_pack_of_full .positive _ Nat.log2_two_pow (by decide) (by decide)]

theorem value?_ofNat_of_small {n : Nat} (positive : 0 < n) (small : n < 2 ^ 53) :
    value? (Float.ofNat n) = some (n : ℚ) := by
  have leading := log2_le_of_lt small
  have size : (n * 2 ^ (52 - n.log2)).log2 = 52 + 0 := by
    rw [log2_mul_two_pow positive]
    omega
  obtain ⟨significand, exponent, filled, unpacked, full, lower, upper, same⟩ :=
    unpack_roundWithAccuracy .positive size (e := n.log2 - 52) (by omega) (by omega)
  rw [← toModel_toFloat_of_small positive small] at unpacked
  -- the number is multiplied by one, which rounds it a second time
  have product : (Float.ofNat n).toModel = Float.Model.pack
      (roundWithAccuracy .binary64 .positive (significand * 2 ^ 52) (exponent + -52) .exact) := by
    change (Float.ofScientific n false 0).toModel = _
    rw [Float.ofScientific, dif_pos ⟨small, by decide⟩]
    change Float.Model.mul n.toUInt64.toFloat.toModel _ = _
    rw [Float.Model.mul, unpacked, unpack_one]
    rfl
  have unit : (2 : ℚ) ^ (52 - n.log2) * 2 ^ ((n.log2 : Int) - 52) = 1 := by
    rw [← zpow_natCast, ← zpow_add₀ two_ne_zero, Nat.cast_sub leading]
    simp
  rw [value?_of_roundWithAccuracy product (k := 52) (by rw [log2_mul_two_pow filled, full])
    (by omega) (by omega), Binary.quotient_mul, show exponent + -52 + (52 : Nat) = exponent by omega,
    same, Binary.quotient_zero, signFactor_positive, one_mul]
  push_cast
  rw [Int.add_zero, mul_assoc, unit, mul_one]

/-- The integer that a double keeps of another one: the leading 53 bits, rounded. -/
def rounded (n : Int) : Int :=
  let places := n.natAbs.log2 - 52
  n.sign * (Binary.quotient .halfToEven false n.natAbs places * 2 ^ places : Nat)

theorem rounded_of_dvd {n : Int} (whole : 2 ^ (n.natAbs.log2 - 52) ∣ n.natAbs) : rounded n = n := by
  obtain ⟨size, same⟩ := whole
  have exact : Binary.quotient .halfToEven false n.natAbs (n.natAbs.log2 - 52) *
      2 ^ (n.natAbs.log2 - 52) = n.natAbs := by
    generalize n.natAbs.log2 - 52 = places at *
    rw [same, Nat.mul_comm _ size, Binary.quotient_mul]
  simp only [rounded, exact]
  exact Int.sign_mul_natAbs n

theorem rounded_of_small {n : Int} (small : n.natAbs ≤ 2 ^ 53) : rounded n = n := by
  apply rounded_of_dvd
  rcases Nat.lt_or_eq_of_le small with less | full
  · rw [Nat.sub_eq_zero_of_le (log2_le_of_lt less)]
    exact Nat.one_dvd _
  · rw [full, Nat.log2_two_pow]
    decide

theorem rounded_of_value {x : Float} {n : Int} (known : value? x = some (n : ℚ)) : rounded n = n := by
  have cut := (value?_eq_intCast_iff.mp known).2
  unfold integer? at cut
  cases form : Binary.ofFloat x with
  | infinite | notANumber => simp [form] at cut
  | finite negative significand exponent =>
      have fits := Binary.fits_of_ofBits form
      have size : n.natAbs = Binary.magnitude .towardZero negative significand exponent := by
        simp only [form, Option.some.injEq] at cut
        subst cut
        split <;> simp
      unfold Binary.magnitude at size
      have bits : significand < 2 ^ 53 := fits.lt
      split at size
      · apply rounded_of_dvd
        rw [size, Nat.pow_eq]
        rcases Nat.eq_zero_or_pos significand with rfl | positive
        · simp
        · have leading := log2_le_of_lt bits
          rw [log2_mul_two_pow positive]
          exact Nat.dvd_mul_left_of_dvd (Nat.pow_dvd_pow 2 (by omega)) _
      · apply rounded_of_small
        rw [size]
        exact (Nat.div_le_self _ _).trans bits.le

theorem natAbs_rounded {n : Int} {k : Nat} (size : n.natAbs.log2 = 52 + k) :
    (rounded n).natAbs = Binary.quotient .halfToEven false n.natAbs k * 2 ^ k := by
  have nonzero : n ≠ 0 := by
    rintro rfl
    simp at size
    omega
  simp only [rounded, size, Nat.add_sub_cancel_left]
  rw [Int.natAbs_mul, Int.natAbs_sign_of_ne_zero nonzero, Nat.one_mul, Int.natAbs_natCast]

theorem exists_places {n : Int} (large : 2 ^ 53 < n.natAbs) : ∃ k, n.natAbs.log2 = 52 + k :=
  Nat.exists_eq_add_of_le ((Nat.le_log2 (by omega)).mpr (by omega))

theorem two_pow_le_natAbs_rounded {n : Int} {j : Nat} (large : 2 ^ j ≤ n.natAbs) :
    2 ^ j ≤ (rounded n).natAbs := by
  by_cases small : n.natAbs ≤ 2 ^ 53
  · rwa [rounded_of_small small]
  obtain ⟨k, size⟩ := exists_places (not_le.mp small)
  have leading : j ≤ 52 + k := size ▸ (Nat.le_log2 (by omega)).mpr large
  rw [natAbs_rounded size]
  calc 2 ^ j ≤ 2 ^ (52 + k) := Nat.pow_le_pow_right two_pos leading
    _ = 2 ^ 52 * 2 ^ k := Nat.pow_add 2 52 k
    _ ≤ _ := Nat.mul_le_mul_right _ (Binary.quotient_bits size).1

theorem natAbs_rounded_le_two_pow {n : Int} {j : Nat} (below : n.natAbs ≤ 2 ^ j) :
    (rounded n).natAbs ≤ 2 ^ j := by
  rcases Nat.lt_or_eq_of_le below with less | full
  · by_cases small : n.natAbs ≤ 2 ^ 53
    · rwa [rounded_of_small small]
    obtain ⟨k, size⟩ := exists_places (not_le.mp small)
    have leading : 52 + k < j := size ▸ (Nat.log2_lt (by omega)).mpr less
    rw [natAbs_rounded size]
    calc _ ≤ 2 ^ 53 * 2 ^ k := Nat.mul_le_mul_right _ (Binary.quotient_bits size).2
      _ = 2 ^ (53 + k) := (Nat.pow_add 2 53 k).symm
      _ ≤ 2 ^ j := Nat.pow_le_pow_right two_pos (by omega)
  · have exact : 2 ^ (n.natAbs.log2 - 52) ∣ n.natAbs := by
      rw [full, Nat.log2_two_pow]
      exact Nat.pow_dvd_pow 2 (Nat.sub_le j 52)
    rwa [rounded_of_dvd exact]

theorem value?_ofNat {n : Nat} (positive : 0 < n) (fits : n.log2 < 1000) :
    value? (Float.ofNat n) = some (rounded n : ℚ) := by
  by_cases small : n < 2 ^ 53
  · rw [value?_ofNat_of_small positive small, rounded_of_small (by simpa using small.le)]
    rfl
  · rw [value?_ofNat_of_large (by omega) fits, rounded, Int.sign_eq_one_of_pos (by omega)]
    simp

theorem rounded_neg (n : Int) : rounded (-n) = -rounded n := by
  simp [rounded]

theorem value?_nearest {n : Int} (fits : n.natAbs.log2 < 1000) :
    value? (nearest n) = some (rounded n : ℚ) := by
  match n with
  | 0 => decide +kernel
  | (n + 1 : Nat) => exact value?_ofNat n.succ_pos fits
  | Int.negSucc n =>
      change value? (-Float.ofNat n.succ) = _
      rw [value?_neg, value?_ofNat n.succ_pos fits, Int.negSucc_eq, rounded_neg]
      simp

end Stepwise.Number
