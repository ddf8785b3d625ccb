import Mathlib
import Stepwise.Number.Double

/-!
The values of doubles.

A finite double stands for a rational number.  The order of doubles is the order of these numbers,
and a double is integral if its number is an integer.
-/

namespace Stepwise.Number

open Float.Model (Format)
open Float.Model.UnpackedFloat

namespace Binary

def value? : Binary → Option ℚ
  | .finite negative significand exponent =>
      some ((if negative then -1 else 1) * (significand * 2 ^ exponent))
  | _ => none

/-- A binary fraction is a whole number if no place behind the point is set; cutting off these
places does not change it then. -/
theorem eq_natCast_iff (negative : Bool) (significand : Nat) (exponent : Int) (n : Nat) :
    (significand : ℚ) * 2 ^ exponent = n ↔
      (0 ≤ exponent || significand % Nat.pow 2 (-exponent).toNat == 0) = true ∧
        magnitude .towardZero negative significand exponent = n := by
  obtain ⟨places, rfl | rfl⟩ := exponent.eq_nat_or_neg
  · have whole : (significand : ℚ) * 2 ^ (places : Int) = (significand * 2 ^ places : Nat) := by
      push_cast
      rfl
    rw [whole, Nat.cast_inj, magnitude, if_pos (Int.natCast_nonneg places)]
    simp
  · have unit : (2 : ℚ) ^ places ≠ 0 := pow_ne_zero _ two_ne_zero
    have scaled : (significand : ℚ) * 2 ^ (-(places : Int)) = n ↔ significand = n * 2 ^ places := by
      rw [zpow_neg, zpow_natCast, ← div_eq_mul_inv, div_eq_iff unit]
      norm_cast
    rw [scaled]
    rcases Nat.eq_zero_or_pos places with rfl | positive
    · simp [magnitude]
    · have behind : ¬ 0 ≤ -(places : Int) := by omega
      simp only [magnitude, behind, if_false, quotient, neg_neg, Int.toNat_natCast, decide_false,
        Bool.false_or, beq_iff_eq]
      constructor
      · rintro rfl
        exact ⟨Nat.mul_mod_left _ _, Nat.mul_div_cancel _ (Nat.two_pow_pos _)⟩
      · rintro ⟨rest, rfl⟩
        exact (Nat.div_mul_cancel (Nat.dvd_of_mod_eq_zero rest)).symm

theorem eq_intCast_iff (negative : Bool) (significand : Nat) (exponent n : Int) :
    (significand : ℚ) * 2 ^ exponent = n ↔
      (0 ≤ exponent || significand % Nat.pow 2 (-exponent).toNat == 0) = true ∧
        (magnitude .towardZero negative significand exponent : Int) = n := by
  cases n with
  | ofNat n =>
      rw [Int.ofNat_eq_natCast, Int.cast_natCast, Nat.cast_inj]
      exact eq_natCast_iff negative significand exponent n
  | negSucc n =>
      have nonneg : (0 : ℚ) ≤ significand * 2 ^ exponent := by positivity
      have below : ((Int.negSucc n : Int) : ℚ) < 0 := mod_cast Int.negSucc_lt_zero n
      constructor
      · intro same
        exact absurd (same ▸ nonneg) below.not_ge
      · rintro ⟨-, same⟩
        cases same

end Binary

def value? (x : Float) : Option ℚ := (Binary.ofFloat x).value?

/-- The value of a double is an integer if the double is integral and cutting off the places behind
the point leaves that integer. -/
theorem value?_eq_intCast_iff {x : Float} {n : Int} :
    value? x = some (n : ℚ) ↔ isIntegral x = true ∧ integer? .towardZero x = some n := by
  unfold value? isIntegral integer?
  cases Binary.ofFloat x with
  | infinite | notANumber => simp [Binary.value?]
  | finite negative significand exponent =>
      simp only [Binary.value?, Option.some.injEq]
      cases negative with
      | false =>
          simp only [Bool.false_eq_true, if_false, one_mul]
          exact Binary.eq_intCast_iff false significand exponent n
      | true =>
          simp only [if_true, neg_one_mul, neg_eq_iff_eq_neg, ← Int.cast_neg]
          exact Binary.eq_intCast_iff true significand exponent (-n)

theorem exists_integer_of_isIntegral {x : Float} (integral : isIntegral x = true)
    (rounding : Rounding) : ∃ n, integer? rounding x = some n := by
  unfold isIntegral at integral
  unfold integer?
  cases known : Binary.ofFloat x with
  | finite => exact ⟨_, rfl⟩
  | infinite | notANumber => simp [known] at integral

theorem Double.toBits_toFloat {x : Double} (isNumber : x.isNaN = false) :
    x.toFloat.toBits = x.bits := by
  have packed : x.toFloat.toBits.toBitVec =
      if @isNaNBits .binary64 x.bits.toBitVec then packedNaN .binary64 else x.bits.toBitVec :=
    @pack_unpack .binary64 x.bits.toBitVec (by decide)
  by_cases isNaN : @isNaNBits .binary64 x.bits.toBitVec = true
  · rw [if_pos isNaN] at packed
    rw [Double.isNaN, Float.isNaN_eq_decide_eq_nan, decide_eq_false_iff_not, ← Float.toBits_inj,
      ← UInt64.toBitVec_inj] at isNumber
    exact absurd packed isNumber
  · rw [if_neg isNaN] at packed
    exact UInt64.toBitVec_inj.mp packed

namespace Binary

def ofUnpacked : Float.Model.UnpackedFloat → Binary
  | .infinity sign => .infinite (sign == .negative)
  | .notANumber => .notANumber
  | .zero sign => .finite (sign == .negative) 0 leastExponent
  | .finite sign mantissa exponent _ => .finite (sign == .negative) mantissa exponent

theorem toNat_unpackMantissa (b : BitVec 64) :
    (@unpackMantissa .binary64 b).toNat = b.toNat % hiddenBit := by
  rw [unpackMantissa_def, BitVec.extractLsb'_toNat]
  rfl

theorem toNat_unpackExponent (b : BitVec 64) :
    (@unpackExponent .binary64 b).toNat = b.toNat / hiddenBit % 2048 := by
  rw [unpackExponent_def, BitVec.extractLsb'_toNat, Nat.shiftRight_eq_div_pow]
  rfl

theorem toNat_unpackSign (b : BitVec 64) :
    (@unpackSign .binary64 b).toNat = b.toNat / signBit % 2 := by
  rw [unpackSign_def, BitVec.extractLsb'_toNat, Nat.shiftRight_eq_div_pow]
  rfl

theorem ofBits_eq (b : BitVec 64) : ofBits b.toNat = ofUnpacked (unpack .binary64 b) := by
  have sign : (Sign.ofBitVec (@unpackSign .binary64 b) == .negative) =
      (b.toNat / signBit % 2 == 1) := by
    rw [← toNat_unpackSign]
    generalize @unpackSign .binary64 b = s
    revert s
    decide
  have mantissa := toNat_unpackMantissa b
  have exponent := toNat_unpackExponent b
  have full : @unpackExponent .binary64 b = -1#_ ↔ b.toNat / hiddenBit % 2048 = 2047 := by
    rw [← exponent, ← BitVec.toNat_inj]
    exact Iff.rfl
  have empty : @unpackExponent .binary64 b = 0#_ ↔ b.toNat / hiddenBit % 2048 = 0 := by
    rw [← exponent, ← BitVec.toNat_inj]
    exact Iff.rfl
  have whole : @unpackMantissa .binary64 b = 0#_ ↔ b.toNat % hiddenBit = 0 := by
    rw [← mantissa, ← BitVec.toNat_inj]
    exact Iff.rfl
  have bias : Format.binary64.exponentBias = 1023 := by decide
  unfold ofBits unpack
  simp only [← sign, full, beq_iff_eq]
  by_cases isFull : b.toNat / hiddenBit % 2048 = 2047
  · simp only [isFull, if_true, whole]
    split <;> rfl
  by_cases isEmpty : b.toNat / hiddenBit % 2048 = 0
  · simp only [isEmpty, empty, if_true]
    by_cases isZero : b.toNat % hiddenBit = 0
    · simp only [whole, isZero, dif_pos]
      rfl
    · have filled : ¬ @unpackMantissa .binary64 b = 0#_ := fun unset => isZero (whole.mp unset)
      rw [dif_neg filled, if_neg (by decide)]
      simp only [ofUnpacked, mantissa, exponent, isEmpty, bias]
      rfl
  · have leading : (1#1 ++ @unpackMantissa .binary64 b).toNat =
        hiddenBit + b.toNat % hiddenBit := by
      rw [BitVec.toNat_append, ← Nat.shiftLeft_add_eq_or_of_lt (BitVec.isLt _), mantissa]
      rfl
    simp only [isFull, isEmpty, empty, if_false, ofUnpacked, leading, exponent, bias, leastExponent]
    congr 1
    omega

theorem ofFloat_eq (x : Float) : ofFloat x = ofUnpacked x.toModel.unpack := ofBits_eq _

end Binary

theorem unpack_pack_unpack (b : BitVec Format.binary64.numBits) :
    unpack .binary64 ((unpack .binary64 b).pack .binary64) = unpack .binary64 b := by
  rw [pack_unpack]
  split
  · next isNaN =>
      rw [isNaNBits, decide_eq_true_eq] at isNaN
      rw [unpack_packedNaN, unpack, if_pos isNaN.1, if_neg isNaN.2]
  · rfl

theorem unpack_abs (x : Float) : x.abs.toModel.unpack = x.toModel.unpack.abs := by
  let bits := x.toBits.toBitVec
  let unsigned := packComponents .binary64 .positive (unpackExponent bits) (unpackMantissa bits)
  have isAbs : unpack .binary64 unsigned = (unpack .binary64 bits).abs := by
    unfold unpack unsigned
    simp only [unpackSign_packComponents, unpackExponent_packComponents,
      unpackMantissa_packComponents, Sign.ofBitVec_toBitVec]
    split_ifs <;> rfl
  have packed := unpack_pack_unpack unsigned
  rwa [isAbs] at packed

theorem value?_abs (x : Float) : value? x.abs = (value? x).map (|·|) := by
  rw [value?, value?, Binary.ofFloat_eq, Binary.ofFloat_eq, unpack_abs]
  cases x.toModel.unpack with
  | notANumber | infinity => rfl
  | zero s => simp [Float.Model.UnpackedFloat.abs, Binary.ofUnpacked, Binary.value?]
  | finite s m p positive =>
      have size : (0 : ℚ) < m * 2 ^ p := by positivity
      cases s <;>
        simp [Float.Model.UnpackedFloat.abs, Binary.ofUnpacked, Binary.value?, abs_of_pos size]

theorem unpack_neg (x : Float) : (-x).toModel.unpack = x.toModel.unpack.neg := by
  let bits : BitVec Format.binary64.numBits := x.toBits.toBitVec
  let turned := packComponents .binary64 (-Sign.ofBitVec (unpackSign bits)) (unpackExponent bits)
    (unpackMantissa bits)
  have isNeg : unpack .binary64 turned = (unpack .binary64 bits).neg := by
    unfold unpack turned
    simp only [unpackSign_packComponents, unpackExponent_packComponents,
      unpackMantissa_packComponents, Sign.ofBitVec_toBitVec]
    split_ifs <;> rfl
  have packed := unpack_pack_unpack turned
  rwa [isNeg] at packed

theorem value?_neg (x : Float) : value? (-x) = (value? x).map (-·) := by
  rw [value?, value?, Binary.ofFloat_eq, Binary.ofFloat_eq, unpack_neg]
  cases x.toModel.unpack with
  | notANumber | infinity => rfl
  | zero s => simp [Float.Model.UnpackedFloat.neg, Binary.ofUnpacked, Binary.value?]
  | finite s m p positive =>
      have turned : -Sign.positive = Sign.negative ∧ -Sign.negative = Sign.positive := ⟨rfl, rfl⟩
      cases s <;>
        simp [Float.Model.UnpackedFloat.neg, Binary.ofUnpacked, Binary.value?, turned]

namespace Binary

/-- A significand has at most 53 bits, and it has all of them unless the exponent is the least. -/
structure Fits (significand : Nat) (exponent : Int) : Prop where
  lt : significand < 2 * hiddenBit
  least_le : leastExponent ≤ exponent
  full : hiddenBit ≤ significand ∨ exponent = leastExponent

theorem fits_of_ofBits {bits significand : Nat} {negative : Bool} {exponent : Int}
    (found : ofBits bits = .finite negative significand exponent) : Fits significand exponent := by
  have rest : bits % hiddenBit < hiddenBit := Nat.mod_lt _ (by decide)
  unfold ofBits at found
  simp only [beq_iff_eq] at found
  split at found
  · split at found <;> cases found
  split at found
  · cases found
    exact ⟨by omega, le_rfl, .inr rfl⟩
  · cases found
    exact ⟨by omega, by omega, .inl (Nat.le_add_right _ _)⟩

theorem fits_of_unpack {x : Float} {negative : Bool} {significand : Nat} {exponent : Int}
    (found : ofUnpacked x.toModel.unpack = .finite negative significand exponent) :
    Fits significand exponent :=
  fits_of_ofBits ((ofBits_eq _).trans found)

variable {m n : Nat} {p q : Int}

theorem Fits.lt_of_exponent (first : Fits m p) (second : Fits n q) (below : p < q) :
    (m : ℚ) * 2 ^ p < n * 2 ^ q := by
  have full : hiddenBit ≤ n := second.full.resolve_right (by have := first.least_le; omega)
  calc (m : ℚ) * 2 ^ p < (2 * hiddenBit : Nat) * 2 ^ p := by
        gcongr
        exact first.lt
    _ = (hiddenBit : ℚ) * 2 ^ (p + 1) := by
        rw [zpow_add_one₀ two_ne_zero]
        push_cast
        ring
    _ ≤ n * 2 ^ q := by
        gcongr
        · exact one_le_two
        · omega

theorem Fits.lt_iff (first : Fits m p) (second : Fits n q) :
    (compare p q).then (compare m n) = .lt ↔ (m : ℚ) * 2 ^ p < n * 2 ^ q := by
  rcases lt_trichotomy p q with below | rfl | above
  · simp [compare_lt_iff_lt.mpr below, first.lt_of_exponent second below]
  · have unit : (0 : ℚ) < 2 ^ p := by positivity
    simp [mul_lt_mul_iff_left₀ unit, compare_lt_iff_lt]
  · simp [compare_gt_iff_gt.mpr above, (second.lt_of_exponent first above).le]

theorem Fits.gt_iff (first : Fits m p) (second : Fits n q) :
    (compare p q).then (compare m n) = .gt ↔ (n : ℚ) * 2 ^ q < m * 2 ^ p := by
  rw [← second.lt_iff first, ← Int.compare_swap q, ← Nat.compare_swap n, ← Ordering.swap_then,
    Ordering.swap_eq_gt]

theorem Fits.eq_iff (first : Fits m p) (second : Fits n q) :
    (compare p q).then (compare m n) = .eq ↔ (m : ℚ) * 2 ^ p = n * 2 ^ q := by
  have below := first.lt_iff second
  have above := first.gt_iff second
  cases order : (compare p q).then (compare m n) with
  | lt => simp [(below.mp order).ne]
  | gt => simp [(above.mp order).ne']
  | eq =>
      rw [order] at below above
      have upper := not_lt.mp (mt above.mpr (by decide))
      have lower := not_lt.mp (mt below.mpr (by decide))
      simpa using le_antisymm upper lower

theorem lt_iff_value_lt {u z : Float.Model.UnpackedFloat} {v w : ℚ}
    (fits : ∀ {negative m p}, ofUnpacked u = .finite negative m p → Fits m p)
    (fitsToo : ∀ {negative n q}, ofUnpacked z = .finite negative n q → Fits n q)
    (first : (ofUnpacked u).value? = some v) (second : (ofUnpacked z).value? = some w) :
    u.lt z = true ↔ v < w := by
  rw [Float.Model.UnpackedFloat.lt]
  cases u with
  | notANumber | infinity => cases first
  | zero s =>
      cases first
      cases z with
      | notANumber | infinity => cases second
      | zero t =>
          cases second
          simp [Float.Model.UnpackedFloat.compare]
      | finite t n q positive =>
          cases second
          have unit : (0 : ℚ) < 2 ^ q := by positivity
          cases t <;> simp [Float.Model.UnpackedFloat.compare, positive, unit, unit.le]
  | finite s m p positive =>
      cases first
      cases z with
      | notANumber | infinity => cases second
      | zero t =>
          cases second
          have unit : (0 : ℚ) < 2 ^ p := by positivity
          cases s <;> simp [Float.Model.UnpackedFloat.compare, positive, unit, unit.le]
      | finite t n q positiveToo =>
          cases second
          have size : (0 : ℚ) < m * 2 ^ p := by positivity
          have sizeToo : (0 : ℚ) < n * 2 ^ q := by positivity
          cases s <;> cases t
          · simp [Float.Model.UnpackedFloat.compare, (fits rfl).gt_iff (fitsToo rfl)]
          · simp [Float.Model.UnpackedFloat.compare]
            linarith
          · simp [Float.Model.UnpackedFloat.compare]
            linarith
          · simp [Float.Model.UnpackedFloat.compare, (fits rfl).lt_iff (fitsToo rfl)]

/-- A double that was taken apart is equal to a finite one if it has the same value. -/
theorem beq_iff_value_eq {u z : Float.Model.UnpackedFloat} {v : ℚ}
    (fits : ∀ {negative m p}, ofUnpacked u = .finite negative m p → Fits m p)
    (fitsToo : ∀ {negative n q}, ofUnpacked z = .finite negative n q → Fits n q)
    (first : (ofUnpacked u).value? = some v) :
    u.beq z = true ↔ (ofUnpacked z).value? = some v := by
  rw [Float.Model.UnpackedFloat.beq]
  cases u with
  | notANumber | infinity => cases first
  | zero s =>
      cases first
      cases z with
      | notANumber | zero => simp [Float.Model.UnpackedFloat.compare, ofUnpacked, value?]
      | infinity t => cases t <;> simp [Float.Model.UnpackedFloat.compare, ofUnpacked, value?]
      | finite t n q positive =>
          have unit : (2 : ℚ) ^ q ≠ 0 := by positivity
          cases t <;>
            simp [Float.Model.UnpackedFloat.compare, ofUnpacked, value?, positive.ne', unit]
  | finite s m p positive =>
      cases first
      have size : (0 : ℚ) < m * 2 ^ p := by positivity
      cases z with
      | notANumber => simp [Float.Model.UnpackedFloat.compare, ofUnpacked, value?]
      | infinity t => cases t <;> simp [Float.Model.UnpackedFloat.compare, ofUnpacked, value?]
      | zero t =>
          have unit : (2 : ℚ) ^ p ≠ 0 := by positivity
          cases s <;>
            simp [Float.Model.UnpackedFloat.compare, ofUnpacked, value?, positive.ne', unit]
      | finite t n q positiveToo =>
          have sizeToo : (0 : ℚ) < n * 2 ^ q := by positivity
          have same := (fits rfl).eq_iff (fitsToo rfl)
          cases s <;> cases t
          · simp [Float.Model.UnpackedFloat.compare, ofUnpacked, value?, same]
            exact eq_comm
          · simp [Float.Model.UnpackedFloat.compare, ofUnpacked, value?]
            linarith
          · simp [Float.Model.UnpackedFloat.compare, ofUnpacked, value?]
            linarith
          · simp [Float.Model.UnpackedFloat.compare, ofUnpacked, value?, same]
            exact eq_comm

end Binary

theorem lt_iff_of_values {x y : Float} {v w : ℚ} (first : value? x = some v)
    (second : value? y = some w) : x < y ↔ v < w := by
  rw [value?, Binary.ofFloat_eq] at first second
  exact decide_eq_true_iff.trans
    (Binary.lt_iff_value_lt Binary.fits_of_unpack Binary.fits_of_unpack first second)

theorem beq_iff_of_value {x y : Float} {v : ℚ} (first : value? x = some v) :
    (x == y) = true ↔ value? y = some v := by
  rw [value?, Binary.ofFloat_eq] at first ⊢
  exact Binary.beq_iff_value_eq Binary.fits_of_unpack Binary.fits_of_unpack first

end Stepwise.Number
