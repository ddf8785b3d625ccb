import Stepwise.Proofs.Nearest

/-!
Products and quotients of doubles.

Where nothing becomes too large or too small, a product or a quotient of doubles is the double nearest
to the exact one.  A quotient of significands is cut off after its leading bits; two more bits
tell how what is cut off compares with nothing and with one half, which is all that rounding asks.
-/

namespace Stepwise.Number

open Float.Model (Format totalExponent)
open Float.Model.UnpackedFloat

theorem signFactor_mul (s t : Sign) : signFactor (s * t) = signFactor s * signFactor t := by
  have negative : signFactor .negative = -1 := rfl
  cases s <;> cases t
  · change signFactor .positive = _
    norm_num [negative]
  · change signFactor .negative = _
    norm_num [negative]
  · change signFactor .negative = _
    norm_num [negative]
  · change signFactor .positive = _
    norm_num

theorem sign_div (s t : Sign) : s / t = s * t := by
  cases s <;> cases t <;> rfl

theorem signFactor_eq (s : Sign) : signFactor s = 1 ∨ signFactor s = -1 := by
  cases s with
  | negative => exact .inr rfl
  | positive => exact .inl rfl

theorem abs_signFactor_mul (s : Sign) (q : ℚ) : |signFactor s * q| = |q| := by
  rcases signFactor_eq s with factor | factor <;> simp [factor]

theorem abs_signFactor_mul_zpow (s : Sign) (m : Nat) (e : Int) :
    |signFactor s * ((m : ℚ) * 2 ^ e)| = m * 2 ^ e := by
  rw [abs_signFactor_mul]
  exact abs_of_nonneg (by positivity)

theorem nearestDouble_signFactor_mul (s : Sign) (q : ℚ) :
    nearestDouble (signFactor s * q) = signFactor s * nearestDouble q := by
  rcases signFactor_eq s with factor | factor <;> simp [factor, nearestDouble_neg]

structure Moderate (q : ℚ) : Prop where
  lower : (2 : ℚ) ^ (-500 : Int) ≤ |q|
  upper : |q| < 2 ^ (500 : Int)

theorem value?_of_unpack_zero {x : Float} {s : Sign} (unpacked : x.toModel.unpack = .zero s) :
    value? x = some 0 := by
  rw [value?, Binary.ofFloat_eq, unpacked]
  simp [Binary.ofUnpacked, Binary.value?]

theorem exists_unpack {x : Float} {v : ℚ} (known : value? x = some v) (moderate : Moderate v) :
    ∃ (s : Sign) (m : Nat) (e : Int) (positive : 0 < m),
      x.toModel.unpack = .finite s m e positive ∧ m.log2 = 52 ∧ -553 < e ∧ e < 448 ∧
        v = signFactor s * (m * 2 ^ e) := by
  cases unpacked : x.toModel.unpack with
  | notANumber | infinity =>
      rw [value?, Binary.ofFloat_eq, unpacked] at known
      cases known
  | zero s =>
      have nothing : v = 0 := Option.some.inj (known.symm.trans (value?_of_unpack_zero unpacked))
      have lower := moderate.lower
      rw [nothing, abs_zero] at lower
      exact absurd lower (not_le.mpr (by positivity))
  | finite s m e positive =>
      have fits : Binary.Fits m e := Binary.fits_of_unpack (by rw [unpacked]; rfl)
      have known' := value?_of_unpack unpacked
      obtain rfl := Option.some.inj (known.symm.trans known')
      have lower := abs_signFactor_mul_zpow s m e ▸ moderate.lower
      have upper := abs_signFactor_mul_zpow s m e ▸ moderate.upper
      have bits : (m : ℚ) < 2 ^ (53 : Int) := by exact_mod_cast fits.lt
      have least : -553 < e := by
        have reached : (2 : ℚ) ^ (-500 : Int) < 2 ^ (53 + e) := by
          rw [zpow_add₀ two_ne_zero]
          exact lower.trans_lt (mul_lt_mul_of_pos_right bits (by positivity))
        have := (zpow_lt_zpow_iff_right₀ one_lt_two).mp reached
        omega
      have full : Binary.hiddenBit ≤ m :=
        fits.full.resolve_right (by simp only [Binary.leastExponent]; omega)
      have leading : m.log2 = 52 := (Nat.log2_eq_iff positive.ne').mpr ⟨full, fits.lt⟩
      have greatest : e < 448 := by
        have bitsToo : (2 : ℚ) ^ (52 : Int) ≤ m := by exact_mod_cast full
        have reached : (2 : ℚ) ^ (52 + e) < 2 ^ (500 : Int) := by
          rw [zpow_add₀ two_ne_zero]
          exact (mul_le_mul_of_nonneg_right bitsToo (by positivity)).trans_lt upper
        have := (zpow_lt_zpow_iff_right₀ one_lt_two).mp reached
        omega
      exact ⟨s, m, e, positive, rfl, leading, least, greatest, rfl⟩

theorem exists_unpack_zero {x : Float} (known : value? x = some 0) :
    ∃ s, x.toModel.unpack = .zero s := by
  cases unpacked : x.toModel.unpack with
  | notANumber | infinity =>
      rw [value?, Binary.ofFloat_eq, unpacked] at known
      cases known
  | zero s => exact ⟨s, rfl⟩
  | finite s m e positive =>
      have nothing := Option.some.inj ((value?_of_unpack unpacked).symm.trans known)
      have size := abs_signFactor_mul_zpow s m e
      rw [nothing, abs_zero] at size
      exact absurd size (ne_of_lt (by positivity))

theorem value?_of_pack_zero {x : Float} {s : Sign} (packed : x.toModel = Float.Model.pack (.zero s)) :
    value? x = some 0 := by
  apply value?_of_unpack_zero (s := s)
  rw [packed]
  cases s <;> rfl

variable {x y : Float} {v w : ℚ}

theorem toModel_mul (x y : Float) :
    (x * y).toModel =
      Float.Model.pack (Float.Model.UnpackedFloat.mul .binary64 x.toModel.unpack y.toModel.unpack) :=
  rfl

theorem log2_product {m n : Nat} (leading : m.log2 = 52) (leadingToo : n.log2 = 52) :
    ∃ k, (m * n).log2 = 52 + k ∧ 52 ≤ k ∧ k < 54 := by
  have bounds := bounds_of_log2 (k := 0) leading
  have boundsToo := bounds_of_log2 (k := 0) leadingToo
  have least := Nat.mul_le_mul bounds.1 boundsToo.1
  have greatest := Nat.mul_lt_mul'' bounds.2 boundsToo.2
  rw [← Nat.pow_add] at least greatest
  have nonzero : m * n ≠ 0 := (lt_of_lt_of_le (Nat.two_pow_pos _) least).ne'
  have above := (Nat.le_log2 nonzero).mpr least
  have below := (Nat.log2_lt nonzero).mpr greatest
  exact ⟨(m * n).log2 - 52, by omega, by omega, by omega⟩

theorem signFactor_mul_mul (s t : Sign) (m n : Nat) (e f : Int) :
    signFactor s * ((m : ℚ) * 2 ^ e) * (signFactor t * (n * 2 ^ f)) =
      signFactor (s * t) * ((m * n : Nat) * 2 ^ (e + f)) := by
  rw [signFactor_mul, zpow_add₀ two_ne_zero]
  push_cast
  ring

theorem value?_mul (first : value? x = some v) (second : value? y = some w)
    (factor : v = 0 ∨ Moderate v) (moderate : Moderate w) :
    value? (x * y) = some (nearestDouble (v * w)) := by
  obtain ⟨t, n, f, positiveToo, unpackedToo, leadingToo, lowerToo, upperToo, rfl⟩ :=
    exists_unpack second moderate
  rcases factor with rfl | factor
  · obtain ⟨s, unpacked⟩ := exists_unpack_zero first
    rw [zero_mul, nearestDouble_zero]
    apply value?_of_pack_zero (s := s * t)
    rw [toModel_mul, unpacked, unpackedToo]
    rfl
  obtain ⟨s, m, e, positive, unpacked, leading, lower, upper, rfl⟩ := exists_unpack first factor
  have packed : (x * y).toModel =
      Float.Model.pack (roundWithAccuracy .binary64 (s * t) (m * n) (e + f) .exact) := by
    rw [toModel_mul, unpacked, unpackedToo]
    rfl
  obtain ⟨k, size, least, greatest⟩ := log2_product leading leadingToo
  rw [value?_of_roundWithAccuracy packed size (by omega) (by omega), signFactor_mul_mul,
    nearestDouble_signFactor_mul, nearestDouble_of_log2 (e + f) size]

def accuracyBits : Accuracy → Nat
  | .exact => 0
  | .inexact .lt => 1
  | .inexact .eq => 2
  | .inexact .gt => 3

theorem accuracyBits_lt (accuracy : Accuracy) : accuracyBits accuracy < 2 ^ 2 := by
  rcases accuracy with _ | ⟨_ | _ | _⟩ <;> decide

theorem ofMantissaAndAccuracy_eq (m : Nat) (accuracy : Accuracy) :
    ExtendedMantissa.ofMantissaAndAccuracy m accuracy =
      ExtendedMantissa.ofMantissaAndAccuracy (m * 2 ^ 2 + accuracyBits accuracy) .exact >>> 2 := by
  have small := accuracyBits_lt accuracy
  have whole : (m * 2 ^ 2 + accuracyBits accuracy) / 2 ^ 2 = m := by omega
  have rest : (m * 2 ^ 2 + accuracyBits accuracy) % 2 ^ 2 = accuracyBits accuracy := by omega
  rw [shift_exact, whole, rest]
  rcases accuracy with _ | ⟨_ | _ | _⟩ <;> rfl

theorem shiftRight_shiftRight (mantissa : ExtendedMantissa) (j k : Nat) :
    mantissa >>> j >>> k = mantissa >>> (j + k) := by
  induction k with
  | zero => rfl
  | succ k inductionHypothesis => exact congrArg ExtendedMantissa.shiftRightOne inductionHypothesis

theorem roundedMantissa_shift_of_accuracy (m k : Nat) (accuracy : Accuracy) :
    (ExtendedMantissa.ofMantissaAndAccuracy m accuracy >>> k).roundedMantissa =
      Binary.quotient .halfToEven false (m * 2 ^ 2 + accuracyBits accuracy) (2 + k) := by
  rw [ofMantissaAndAccuracy_eq, shiftRight_shiftRight, roundedMantissa_shift]

theorem log2_accuracyBits {m : Nat} (positive : 0 < m) (accuracy : Accuracy) :
    (m * 2 ^ 2 + accuracyBits accuracy).log2 = m.log2 + 2 := by
  have small := accuracyBits_lt accuracy
  have bounds := (Nat.log2_eq_iff positive.ne').mp rfl
  apply (Nat.log2_eq_iff (by omega)).mpr
  rw [Nat.pow_add, show m.log2 + 2 + 1 = m.log2 + 1 + 2 by ring, Nat.pow_add 2 (m.log2 + 1)]
  omega

theorem accuracyBits_cases (rest unit : Nat) :
    rest = 0 ∧ accuracyBits (accuracyOfFraction rest unit) = 0 ∨
      0 < rest ∧ 2 * rest < unit ∧ accuracyBits (accuracyOfFraction rest unit) = 1 ∨
      0 < rest ∧ 2 * rest = unit ∧ accuracyBits (accuracyOfFraction rest unit) = 2 ∨
      0 < rest ∧ unit < 2 * rest ∧ accuracyBits (accuracyOfFraction rest unit) = 3 := by
  unfold accuracyOfFraction
  by_cases nothing : rest = 0
  · rw [if_pos nothing]
    exact .inl ⟨nothing, rfl⟩
  rw [if_neg nothing]
  have positive := Nat.pos_of_ne_zero nothing
  rcases lt_trichotomy (2 * rest) unit with below | half | above
  · rw [Nat.compare_eq_lt.mpr below]
    exact .inr (.inl ⟨positive, below, rfl⟩)
  · rw [Nat.compare_eq_eq.mpr half]
    exact .inr (.inr (.inl ⟨positive, half, rfl⟩))
  · rw [Nat.compare_eq_gt.mpr above]
    exact .inr (.inr (.inr ⟨positive, above, rfl⟩))

theorem accuracyBits_compare {rest unit : Nat} (less : rest < unit) (y : Int) :
    (2 * y ≤ accuracyBits (accuracyOfFraction rest unit) ↔ y * unit ≤ 2 * rest) ∧
      ((accuracyBits (accuracyOfFraction rest unit) : Int) ≤ 2 * y ↔
        2 * (rest : Int) ≤ y * unit) := by
  have bits := accuracyBits_cases rest unit
  generalize accuracyBits (accuracyOfFraction rest unit) = stored at bits ⊢
  rcases lt_trichotomy y 1 with below | rfl | above
  · rcases lt_trichotomy y 0 with negative | rfl | positive
    · have product : y * (unit : Int) ≤ -1 * unit := Int.mul_le_mul_of_nonneg_right (by omega) (by omega)
      omega
    · omega
    · omega
  · omega
  · have product : 2 * (unit : Int) ≤ y * unit := Int.mul_le_mul_of_nonneg_right above (by omega)
    omega

theorem nearestInteger_cut (size k : Nat) {unit : Nat} (positive : 0 < unit) :
    nearestInteger ((size : ℚ) / (unit * 2 ^ k)) =
      Binary.quotient .halfToEven false
        (size / unit * 2 ^ 2 + accuracyBits (accuracyOfFraction (size % unit) unit)) (2 + k) := by
  have compared := accuracyBits_compare (Nat.mod_lt size positive)
  generalize accuracyBits (accuracyOfFraction (size % unit) unit) = stored at compared ⊢
  have divided : (size : Int) = unit * (size / unit : Nat) + (size % unit : Nat) := by
    exact_mod_cast (Nat.div_add_mod size unit).symm
  have scale : 0 < unit * 2 ^ k := Nat.mul_pos positive (Nat.two_pow_pos k)
  have inner : (size : ℚ) / (unit * 2 ^ k) = size / (unit * 2 ^ k : Nat) := by push_cast; rfl
  have outer (n : Nat) : (n : ℚ) / 2 ^ (2 + k) = n / (2 ^ (2 + k) : Nat) := by push_cast; rfl
  rw [← nearestInteger_div_two_pow, inner, outer]
  generalize size / unit = whole at *
  generalize size % unit = rest at *
  -- what is compared with the whole part is a whole number of halves
  have halves : ∀ z : Int, z * (unit * 2 ^ k) = z * 2 ^ k * unit ∧
      z * 2 ^ (2 + k) = 4 * (z * 2 ^ k) ∧
      (z * 2 ^ k - 2 * whole) * unit = z * 2 ^ k * unit - 2 * (unit * whole) := by
    intro z
    refine ⟨by ring, by ring, by ring⟩
  apply nearestInteger_congr
  · intro z
    have compare := (compared (z * 2 ^ k - 2 * whole)).1
    rw [(halves z).2.2] at compare
    rw [le_two_mul_div_iff scale, le_two_mul_div_iff (Nat.two_pow_pos _)]
    push_cast
    rw [(halves z).1, (halves z).2.1, divided]
    omega
  · intro z
    have compare := (compared (z * 2 ^ k - 2 * whole)).2
    rw [(halves z).2.2] at compare
    rw [two_mul_div_le_iff scale, two_mul_div_le_iff (Nat.two_pow_pos _)]
    push_cast
    rw [(halves z).1, (halves z).2.1, divided]
    omega

theorem nearestDouble_of_quotient {size unit k : Nat} (e : Int) (positive : 0 < unit)
    (leading : (size / unit).log2 = 52 + k) :
    nearestDouble ((size : ℚ) / unit * 2 ^ e) =
      nearestInteger ((size : ℚ) / (unit * 2 ^ k)) * 2 ^ (e + k) := by
  have bounds := bounds_of_log2 leading
  rw [Nat.le_div_iff_mul_le positive, Nat.div_lt_iff_lt_mul positive] at bounds
  have scale : (0 : ℚ) < unit := by exact_mod_cast positive
  have lower : (2 : ℚ) ^ (52 + k) ≤ size / unit := by
    rw [le_div_iff₀ scale]
    exact_mod_cast bounds.1
  have upper : (size : ℚ) / unit < 2 ^ (53 + k) := by
    rw [div_lt_iff₀ scale]
    exact_mod_cast bounds.2
  rw [nearestDouble_of_bounds lower upper, div_div]

theorem toModel_div (x y : Float) :
    (x / y).toModel =
      Float.Model.pack (Float.Model.UnpackedFloat.div .binary64 x.toModel.unpack y.toModel.unpack) :=
  rfl

theorem divCore_eq {m n : Nat} {e f : Int} (leading : m.log2 = 52) (leadingToo : n.log2 = 52)
    (least : -1021 ≤ e - f) :
    divCore .binary64 m e n f =
      (m * 2 ^ 53 / n, e - f - 53, accuracyOfFraction (m * 2 ^ 53 % n) n) := by
  have target : min (e - f) (Format.binary64.targetExponent (totalExponent m e - totalExponent n f)) =
      e - f - 53 := by
    simp only [Format.targetExponent, totalExponent, Format.mantissaBits, Format.minExponent, leading,
      leadingToo]
    norm_num
    omega
  have shift : (e - f - (e - f - 53)).toNat = 53 := by omega
  rw [divCore]
  simp only [target, shift, Nat.shiftLeft_eq]

theorem log2_quotient {m n : Nat} (leading : m.log2 = 52) (leadingToo : n.log2 = 52) :
    ∃ k, (m * 2 ^ 53 / n).log2 = 52 + k ∧ k ≤ 1 := by
  have bounds := bounds_of_log2 (k := 0) leading
  have boundsToo := bounds_of_log2 (k := 0) leadingToo
  have positive : 0 < n := lt_of_lt_of_le (Nat.two_pow_pos _) boundsToo.1
  have lower : 2 ^ 52 ≤ m * 2 ^ 53 / n := by
    rw [Nat.le_div_iff_mul_le positive]
    omega
  have upper : m * 2 ^ 53 / n < 2 ^ 54 := by
    rw [Nat.div_lt_iff_lt_mul positive]
    omega
  have least := (Nat.le_log2 (by omega)).mpr lower
  have greatest := (Nat.log2_lt (by omega)).mpr upper
  exact ⟨(m * 2 ^ 53 / n).log2 - 52, by omega, by omega⟩

theorem signFactor_mul_div (s t : Sign) (m n : Nat) (e f : Int) :
    signFactor s * ((m : ℚ) * 2 ^ e) / (signFactor t * (n * 2 ^ f)) =
      signFactor (s / t) * ((m * 2 ^ 53 : Nat) / n * 2 ^ (e - f - 53)) := by
  have shift : (2 : ℚ) ^ (53 : Int) = 2 ^ 53 := zpow_ofNat 2 53
  rw [sign_div, signFactor_mul, zpow_sub₀ two_ne_zero, zpow_sub₀ two_ne_zero, shift, Nat.cast_mul,
    Nat.cast_pow, Nat.cast_ofNat]
  rcases signFactor_eq t with factor | factor
  · rw [factor]
    field_simp
  · rw [factor]
    field_simp

theorem value?_div (first : value? x = some v) (second : value? y = some w)
    (dividend : v = 0 ∨ Moderate v) (divisor : Moderate w) :
    value? (x / y) = some (nearestDouble (v / w)) := by
  obtain ⟨t, n, f, positiveToo, unpackedToo, leadingToo, lowerToo, upperToo, rfl⟩ :=
    exists_unpack second divisor
  rcases dividend with rfl | dividend
  · obtain ⟨s, unpacked⟩ := exists_unpack_zero first
    rw [zero_div, nearestDouble_zero]
    apply value?_of_pack_zero (s := s / t)
    rw [toModel_div, unpacked, unpackedToo]
    rfl
  obtain ⟨s, m, e, positive, unpacked, leading, lower, upper, rfl⟩ := exists_unpack first dividend
  obtain ⟨k, size, few⟩ := log2_quotient leading leadingToo
  have packed : (x / y).toModel =
      Float.Model.pack (roundWithAccuracy .binary64 (s / t) (m * 2 ^ 53 / n) (e - f - 53)
        (accuracyOfFraction (m * 2 ^ 53 % n) n)) := by
    rw [toModel_div, unpacked, unpackedToo, Float.Model.UnpackedFloat.div,
      divCore_eq leading leadingToo (by omega)]
  have cut := nearestInteger_cut (m * 2 ^ 53) k positiveToo
  have filled : 0 < m * 2 ^ 53 / n := lt_of_lt_of_le (by positivity) (bounds_of_log2 size).1
  generalize accuracyOfFraction (m * 2 ^ 53 % n) n = accuracy at packed cut
  have bits : (m * 2 ^ 53 / n * 2 ^ 2 + accuracyBits accuracy).log2 = 52 + (2 + k) := by
    rw [log2_accuracyBits filled, size]
    ring
  have shifted := shiftToTargetExponent_eq accuracy size (Eq.refl (e - f - 53 + k)) (by omega)
  obtain ⟨significand, exponent, nonzero, found, -, -, -, same⟩ :=
    unpack_of_roundedMantissa (s / t) shifted (roundedMantissa_shift_of_accuracy _ k accuracy)
      (Binary.quotient_bits bits) (by omega) (by omega)
  rw [← packed] at found
  rw [value?_of_unpack found, same, signFactor_mul_div, nearestDouble_signFactor_mul,
    nearestDouble_of_quotient _ positiveToo size, cut, Int.cast_natCast]

end Stepwise.Number
