import Stepwise.Proofs.Arithmetic
import Stepwise.Proofs.Products

/-!
Integers rounded to places before the point.

The code goes through doubles: it divides by a power of ten, rounds to an integer and multiplies.  Each
step takes the double nearest to its exact result.
-/

namespace Stepwise.Number

variable {x : Float} {v : ℚ}

theorem quotient_halfToEven (negative : Bool) (m k : Nat) :
    Binary.quotient .halfToEven negative m k = Binary.quotient .halfToEven false m k := rfl

theorem value?_nearest_of_le {n : Int} (bound : n.natAbs ≤ 2 ^ 63) :
    value? (nearest n) = some (rounded n : ℚ) := by
  have log := log2_le_of_lt (lt_of_le_of_lt bound (by decide : 2 ^ 63 < 2 ^ (63 + 1)))
  exact value?_nearest (by omega)

theorem value?_ofNat_of_fits {n : Nat} (fits : n ≤ 2 ^ 53) : value? (Float.ofNat n) = some (n : ℚ) := by
  have small : (n : Int).natAbs ≤ 2 ^ 53 := fits
  have found := value?_nearest_of_le (n := (n : Int)) (by omega)
  rwa [rounded_of_small small, Int.cast_natCast] at found

theorem value?_integral (known : value? x = some v) :
    value? (integral .halfToEven x) = some (nearestInteger v : ℚ) := by
  unfold integral
  cases form : Binary.ofFloat x with
  | infinite | notANumber =>
      rw [value?, form] at known
      cases known
  | finite negative significand exponent =>
      have fits := Binary.fits_of_ofBits form
      have value : v = (if negative then -1 else 1) * (significand * 2 ^ exponent) := by
        rw [value?, form] at known
        exact (Option.some.inj known).symm
      by_cases nonneg : 0 ≤ exponent
      · lift exponent to Nat using nonneg
        have whole : v = ((if negative then -1 else 1) * (significand * 2 ^ exponent) : Int) := by
          rw [value]
          split <;> push_cast <;> rfl
        simp only [Int.natCast_nonneg, if_true]
        rw [known, whole, nearestInteger_intCast]
      · obtain ⟨places, rfl⟩ : ∃ places : Nat, exponent = -places := ⟨exponent.natAbs, by omega⟩
        have size : Binary.magnitude .halfToEven negative significand (-places) =
            Binary.quotient .halfToEven false significand places := by
          rw [Binary.magnitude, if_neg nonneg, neg_neg, Int.toNat_natCast]
          exact quotient_halfToEven negative significand places
        have small : Binary.quotient .halfToEven false significand places ≤ 2 ^ 53 := by
          have cut := (Binary.quotient_bounds significand places).2
          have less : significand < 2 ^ 53 := fits.lt
          have shorter := Nat.div_le_self significand (2 ^ places)
          omega
        have kept := value?_ofNat_of_fits small
        have nearest := nearestInteger_div_two_pow significand places
        have exact : (significand : ℚ) * 2 ^ (-(places : Int)) = significand / 2 ^ places := by
          rw [zpow_neg, zpow_natCast, div_eq_mul_inv]
        simp only [nonneg, if_false, size]
        rw [value, exact]
        cases negative with
        | false => simp only [Bool.false_eq_true, if_false, one_mul, nearest, kept, Int.cast_natCast]
        | true => simp [nearestInteger_neg, nearest, value?_neg, kept]

theorem isNaN_of_value (known : value? x = some v) : x.isNaN = false := by
  rw [Float.isNaN_eq_decide_eq_nan, decide_eq_false_iff_not]
  rintro rfl
  have nothing : value? Float.nan = none := by decide +kernel
  rw [nothing] at known
  cases known

theorem rounded_of_fits {m : Int} (k : Nat) (fits : |m| ≤ 2 ^ 53) :
    rounded (m * 2 ^ k) = m * 2 ^ k := by
  have kept := nearestDouble_of_fits (e := k) fits
  rw [zpow_natCast] at kept
  have found := nearestDouble_intCast (m * 2 ^ k)
  push_cast at found
  rw [kept] at found
  exact_mod_cast found.symm

theorem ten_pow_eq (k : Nat) : (10 : Int) ^ k = 5 ^ k * 2 ^ k := by
  rw [← mul_pow]
  norm_num

theorem five_pow_le {k : Nat} (few : k ≤ 18) : (5 : Int) ^ k ≤ 2 ^ 52 := by
  calc (5 : Int) ^ k ≤ 5 ^ 18 := pow_le_pow_right₀ (by norm_num) few
    _ ≤ 2 ^ 52 := by norm_num

theorem rounded_ten_pow {k : Nat} (few : k ≤ 18) : rounded (10 ^ k) = 10 ^ k := by
  have small := five_pow_le few
  have fits : |(5 : Int) ^ k| ≤ 2 ^ 53 := by
    rw [abs_of_pos (by positivity)]
    omega
  rw [ten_pow_eq]
  exact rounded_of_fits k fits

theorem zero_or_moderate {n : Int} (bound : |n| ≤ 2 ^ 65) : (n : ℚ) = 0 ∨ Moderate (n : ℚ) := by
  by_cases zero : n = 0
  · exact .inl (Int.cast_eq_zero.mpr zero)
  have lower : (1 : ℚ) ≤ |(n : ℚ)| := by exact_mod_cast Int.one_le_abs zero
  have upper : |(n : ℚ)| ≤ 2 ^ 65 := by exact_mod_cast bound
  right
  constructor
  · exact le_trans (zpow_le_one_of_nonpos₀ one_le_two (by decide)) lower
  · refine upper.trans_lt ?_
    rw [← zpow_natCast]
    exact zpow_lt_zpow_right₀ one_lt_two (by decide)

theorem abs_nearestDouble_le (q : ℚ) : |nearestDouble q| ≤ 2 * |q| := by
  by_cases zero : q = 0
  · rw [zero, nearestDouble_zero, abs_zero, mul_zero]
  have unit : (2 : ℚ) ^ lastPlace q ≤ 2 ^ (52 + lastPlace q) :=
    zpow_le_zpow_right₀ one_le_two (by omega)
  have near := abs_sub_nearestDouble_le q
  have bound : 2 * |q - nearestDouble q| ≤ |q| := near.trans (unit.trans (two_zpow_le_abs zero))
  have apart := abs_sub_abs_le_abs_sub (nearestDouble q) q
  rw [abs_sub_comm] at apart
  linarith [abs_nonneg (q - nearestDouble q)]

theorem abs_nearestInteger_le (q : ℚ) : |(nearestInteger q : ℚ)| ≤ |q| + 1 / 2 := by
  have near := (isNearest_nearestInteger q).near
  have apart := abs_sub_abs_le_abs_sub (nearestInteger q : ℚ) q
  rw [abs_sub_comm] at apart
  linarith

/-- The multiple of a unit that is nearest to an integer; of two that are equally near, the even
multiple. -/
def nearestMultiple (unit : Nat) (n : Int) : Int := nearestInteger (n / unit) * unit

theorem abs_div_sub {unit : Nat} (positive : 0 < unit) (n m : Int) :
    |(n : ℚ) / unit - m| = (|n - m * unit| : Int) / unit := by
  have scale : (0 : ℚ) < unit := by exact_mod_cast positive
  have inner : (n : ℚ) / unit - m = (n - m * unit) / unit := by field_simp
  rw [inner, abs_div, abs_of_pos scale]
  push_cast
  rfl

theorem nearestMultiple_nearest {unit : Nat} (positive : 0 < unit) (n m : Int) :
    ∃ chosen, nearestMultiple unit n = chosen * unit ∧ |n - chosen * unit| ≤ |n - m * unit| ∧
      (|n - m * unit| = |n - chosen * unit| → m ≠ chosen → Even chosen) := by
  have scale : (0 : ℚ) < unit := by exact_mod_cast positive
  obtain ⟨nearer, tie⟩ := nearestInteger_nearest ((n : ℚ) / unit) m
  rw [abs_div_sub positive, abs_div_sub positive] at nearer tie
  refine ⟨_, rfl, ?_, fun same other => tie ?_ other⟩
  · exact_mod_cast (div_le_div_iff_of_pos_right scale).mp nearer
  · rw [same]

/-- The multiple of a power of ten that is computed for an integer.  Powers that have not 64 bits are
taken to be too large for any integer. -/
def computedMultiple (k : Nat) (n : Int) : Int :=
  if k ≤ 18 then rounded (nearestInteger (nearestDouble (rounded n / 10 ^ k)) * 10 ^ k) else 0

theorem value?_computedMultiple {k : Nat} (few : k ≤ 18) {n : Int} (bound : n.natAbs ≤ 2 ^ 63) :
    value? (integral .halfToEven (nearest n / nearest (10 ^ k)) * nearest (10 ^ k)) =
      some (computedMultiple k n : ℚ) := by
  have positive : (0 : Int) < 10 ^ k := by positivity
  have small : (10 : Int) ^ k ≤ 10 ^ 18 := pow_le_pow_right₀ (by norm_num) few
  have scale : value? (nearest (10 ^ k)) = some ((10 ^ k : Int) : ℚ) := by
    rw [value?_nearest_of_le (by omega), rounded_ten_pow few]
  have moderate : Moderate ((10 ^ k : Int) : ℚ) :=
    (zero_or_moderate (by rw [abs_of_pos positive]; omega)).resolve_left
      (Int.cast_ne_zero.mpr positive.ne')
  have first : value? (nearest n) = some (rounded n : ℚ) := value?_nearest_of_le bound
  have size : |rounded n| ≤ 2 ^ 63 := by
    rw [Int.abs_eq_natAbs]
    exact_mod_cast natAbs_rounded_le_two_pow bound
  have divided := value?_div first scale (zero_or_moderate (by omega)) moderate
  have whole := value?_integral divided
  have exact : (rounded n : ℚ) / (10 ^ k : Int) = rounded n / 10 ^ k := by push_cast; rfl
  rw [exact] at whole
  have quotient : |(rounded n : ℚ) / 10 ^ k| ≤ 2 ^ 63 := by
    have unit : (1 : ℚ) ≤ 10 ^ k := one_le_pow₀ (by norm_num)
    have top : |(rounded n : ℚ)| ≤ 2 ^ 63 := by exact_mod_cast size
    rw [abs_div, abs_of_pos (by positivity : (0 : ℚ) < 10 ^ k)]
    exact (div_le_self (abs_nonneg _) unit).trans top
  have near := abs_nearestDouble_le ((rounded n : ℚ) / 10 ^ k)
  have factor := abs_nearestInteger_le (nearestDouble ((rounded n : ℚ) / 10 ^ k))
  rw [computedMultiple, if_pos few]
  generalize nearestInteger (nearestDouble ((rounded n : ℚ) / 10 ^ k)) = multiple at whole factor ⊢
  have fits : |multiple| ≤ 2 ^ 65 := by
    have sum : |(multiple : ℚ)| ≤ 2 ^ 65 := by linarith
    exact_mod_cast sum
  rw [value?_mul whole scale (zero_or_moderate fits) moderate, ← Int.cast_mul, nearestDouble_intCast]

/-- What is kept of an integer is a multiple of a power of two that its size goes with.  The power can
be chosen below that of the ten. -/
theorem exists_unit {n : Int} {k : Nat} (positive : 0 < k) (kept : rounded n = n)
    (bound : n.natAbs ≤ 2 ^ (52 + k)) :
    ∃ s < k, 2 ^ s ∣ n.natAbs ∧ n.natAbs ≤ 2 ^ (53 + s) := by
  by_cases small : n.natAbs ≤ 2 ^ 53
  · exact ⟨0, positive, Nat.one_dvd _, small⟩
  obtain ⟨s, size⟩ := exists_places (not_le.mp small)
  have multiple : 2 ^ s ∣ n.natAbs := by
    rw [← kept, natAbs_rounded size]
    exact Nat.dvd_mul_left _ _
  by_cases inside : s < k
  · refine ⟨s, inside, multiple, ?_⟩
    have less := Nat.lt_log2_self (n := n.natAbs)
    rw [size, show 52 + s + 1 = 53 + s by ring] at less
    exact less.le
  · -- only the bound itself has its last place at the ten
    refine ⟨k - 1, by omega, (Nat.pow_dvd_pow 2 (by omega)).trans multiple, ?_⟩
    rwa [show 53 + (k - 1) = 52 + k by omega]

/-- A number that is not half-way between integers stays away from there by a unit. -/
theorem apart_from_half {n m : Int} {k s : Nat} (inside : s < k) (multiple : 2 ^ s ∣ n.natAbs)
    (less : 2 * |(n : ℚ) / 10 ^ k - m| < 1) :
    2 * |(n : ℚ) / 10 ^ k - m| + 2 ^ (s + 1) / 10 ^ k ≤ 1 := by
  have ten : (0 : ℚ) < 10 ^ k := by positivity
  have scaled : 2 * |(n : ℚ) / 10 ^ k - m| = (2 * |n - m * 10 ^ k| : Int) / 10 ^ k := by
    have measured : |(n : ℚ) / (10 ^ k : Nat) - m| = _ := abs_div_sub (by positivity) n m
    push_cast at measured ⊢
    rw [measured, mul_div_assoc]
  have divides : (2 : Int) ^ (s + 1) ∣ 10 ^ k := by
    rw [ten_pow_eq]
    exact Dvd.dvd.mul_left (pow_dvd_pow 2 inside) _
  have dividesToo : (2 : Int) ^ (s + 1) ∣ 2 * |n - m * 10 ^ k| := by
    rw [pow_succ, mul_comm (2 ^ s : Int)]
    apply mul_dvd_mul_left
    apply (dvd_abs _ _).mpr
    have whole : (2 : Int) ^ s ∣ n := by
      rw [← Int.dvd_natAbs]
      exact_mod_cast multiple
    exact dvd_sub whole (Dvd.dvd.mul_left ((pow_dvd_pow 2 (Nat.le_succ s)).trans divides) m)
  rw [scaled, div_lt_one ten] at less
  rw [scaled, ← add_div, div_le_one ten]
  have below : 2 * |n - m * 10 ^ k| < 10 ^ k := by exact_mod_cast less
  have gap : 2 * |n - m * 10 ^ k| + 2 ^ (s + 1) ≤ 10 ^ k := by
    have positive : (2 : Int) ^ (s + 1) ≤ 10 ^ k - 2 * |n - m * 10 ^ k| :=
      Int.le_of_dvd (by omega) (dvd_sub divides dividesToo)
    omega
  exact_mod_cast gap

theorem nearestDouble_of_half {q : ℚ} {z : Int} (half : 2 * q = z) (bound : |q| ≤ 2 ^ 52) :
    nearestDouble q = q := by
  have exact : (z : ℚ) * 2 ^ (-1 : Int) = q := by
    rw [← half, zpow_neg_one]
    ring
  have fits : |z| ≤ 2 ^ 53 := by
    have size : |(z : ℚ)| ≤ 2 ^ 53 := by
      rw [← half, abs_mul, abs_two]
      linarith
    exact_mod_cast size
  rw [← exact, nearestDouble_of_fits fits]

theorem two_zpow_lt_abs {q : ℚ} (moved : nearestDouble q ≠ q) :
    (2 : ℚ) ^ (52 + lastPlace q) < |q| := by
  have nonzero : q ≠ 0 := by
    rintro rfl
    exact moved nearestDouble_zero
  have unit : (0 : ℚ) < 2 ^ lastPlace q := by positivity
  apply lt_of_le_of_ne (two_zpow_le_abs nonzero)
  intro power
  have leading : |q / 2 ^ lastPlace q| = 2 ^ (52 : Int) := by
    rw [abs_div, ← power, zpow_add₀ two_ne_zero, abs_of_pos unit, mul_div_cancel_right₀ _ unit.ne']
  rcases (abs_eq (by positivity)).mp leading with whole | whole
  · exact moved (nearestDouble_of_multiple (n := 2 ^ 52) (by rw [whole]; norm_num))
  · exact moved (nearestDouble_of_multiple (n := -2 ^ 52) (by rw [whole]; norm_num))

theorem abs_div_ten_pow (n : Int) (k : Nat) : |(n : ℚ) / 10 ^ k| = n.natAbs / 10 ^ k := by
  rw [abs_div, abs_of_pos (by positivity : (0 : ℚ) < 10 ^ k), ← Int.cast_natCast, Int.natCast_natAbs,
    Int.cast_abs]

theorem abs_div_ten_pow_le {n : Int} {j k : Nat} (bound : n.natAbs ≤ 2 ^ (j + k)) :
    |(n : ℚ) / 10 ^ k| ≤ 2 ^ j := by
  have ten : (0 : ℚ) < 10 ^ k := by positivity
  rw [abs_div_ten_pow, div_le_iff₀ ten]
  calc (n.natAbs : ℚ) ≤ 2 ^ (j + k) := by exact_mod_cast bound
    _ = 2 ^ j * 2 ^ k := pow_add 2 j k
    _ ≤ 2 ^ j * 10 ^ k := by gcongr; norm_num

theorem nearestInteger_nearestDouble {n : Int} {k : Nat} (positive : 0 < k) (kept : rounded n = n)
    (bound : n.natAbs ≤ 2 ^ (52 + k)) :
    nearestInteger (nearestDouble (n / 10 ^ k)) = nearestInteger ((n : ℚ) / 10 ^ k) := by
  have ten : (0 : ℚ) < 10 ^ k := by positivity
  by_cases same : nearestDouble ((n : ℚ) / 10 ^ k) = n / 10 ^ k
  · rw [same]
  obtain ⟨s, inside, multiple, size⟩ := exists_unit positive kept bound
  have nearest := isNearest_nearestInteger ((n : ℚ) / 10 ^ k)
  generalize nearestInteger ((n : ℚ) / 10 ^ k) = m at nearest ⊢
  have less : 2 * |(n : ℚ) / 10 ^ k - m| < 1 := by
    apply lt_of_le_of_ne nearest.near
    intro tie
    apply same
    rw [← abs_two, ← abs_mul, abs_eq one_pos.le] at tie
    have narrow := abs_div_ten_pow_le bound
    rcases tie with above | below
    · exact nearestDouble_of_half (z := 2 * m + 1) (by push_cast; linarith) narrow
    · exact nearestDouble_of_half (z := 2 * m - 1) (by push_cast; linarith) narrow
  have apart := apart_from_half inside multiple less
  have moved := abs_sub_nearestDouble_le ((n : ℚ) / 10 ^ k)
  have unit : (2 : ℚ) ^ lastPlace ((n : ℚ) / 10 ^ k) < 2 ^ (s + 1) / 10 ^ k := by
    have leading := two_zpow_lt_abs same
    rw [abs_div_ten_pow, lt_div_iff₀ ten, zpow_add₀ two_ne_zero] at leading
    have top : (n.natAbs : ℚ) ≤ 2 ^ 52 * 2 ^ (s + 1) := by
      rw [← pow_add, show 52 + (s + 1) = 53 + s by ring]
      exact_mod_cast size
    rw [lt_div_iff₀ ten]
    have scaled := leading.trans_le top
    rw [mul_assoc] at scaled
    exact lt_of_mul_lt_mul_left scaled (by positivity)
  have near : 2 * |nearestDouble ((n : ℚ) / 10 ^ k) - m| < 1 := by
    have split : nearestDouble ((n : ℚ) / 10 ^ k) - m =
        ((n : ℚ) / 10 ^ k - m) - ((n : ℚ) / 10 ^ k - nearestDouble (n / 10 ^ k)) := by ring
    rw [split]
    have sum := abs_sub ((n : ℚ) / 10 ^ k - m) ((n : ℚ) / 10 ^ k - nearestDouble (n / 10 ^ k))
    linarith
  exact nearestInteger_eq_iff.mpr ⟨near.le, fun half => absurd half near.ne⟩

theorem rounded_nearestMultiple {n : Int} {k : Nat} (few : k ≤ 18) (bound : n.natAbs ≤ 2 ^ (52 + k)) :
    rounded (nearestInteger ((n : ℚ) / 10 ^ k) * 10 ^ k) = nearestInteger ((n : ℚ) / 10 ^ k) * 10 ^ k := by
  have near := abs_nearestInteger_le ((n : ℚ) / 10 ^ k)
  have five : (5 : ℚ) ^ k ≤ 2 ^ 52 := by exact_mod_cast five_pow_le few
  have positive : (0 : ℚ) < 5 ^ k := by positivity
  have quotient : |(n : ℚ) / 10 ^ k| * 5 ^ k ≤ 2 ^ 52 := by
    have ten : (10 : ℚ) ^ k = 2 ^ k * 5 ^ k := by rw [← mul_pow]; norm_num
    rw [abs_div_ten_pow, ten, ← div_div, div_mul_cancel₀ _ positive.ne', div_le_iff₀ (by positivity),
      ← pow_add]
    exact_mod_cast bound
  generalize nearestInteger ((n : ℚ) / 10 ^ k) = m at near ⊢
  have fits : |m * 5 ^ k| ≤ 2 ^ 53 := by
    have size : |(m : ℚ) * 5 ^ k| ≤ 2 ^ 53 := by
      rw [abs_mul, abs_of_pos positive]
      calc |(m : ℚ)| * 5 ^ k ≤ (|(n : ℚ) / 10 ^ k| + 1 / 2) * 5 ^ k := by gcongr
        _ ≤ 2 ^ 53 := by linarith
    exact_mod_cast size
  rw [ten_pow_eq, ← mul_assoc]
  exact rounded_of_fits k fits

/-- For integers that are small enough for their power of ten, what is computed is the nearest multiple
to the integer as a double. -/
theorem computedMultiple_eq {n : Int} {k : Nat} (positive : 0 < k) (few : k ≤ 18)
    (inside : n.natAbs ≤ 2 ^ 63) (bound : n.natAbs ≤ 2 ^ (52 + k)) :
    computedMultiple k n = nearestMultiple (10 ^ k) (rounded n) := by
  have kept := rounded_of_value (value?_nearest_of_le inside)
  have small := natAbs_rounded_le_two_pow bound
  rw [computedMultiple, if_pos few, nearestInteger_nearestDouble positive kept small,
    rounded_nearestMultiple few small, nearestMultiple]
  push_cast
  rfl

theorem nearestMultiple_eq_zero_iff {unit : Nat} (positive : 0 < unit) (n : Int) :
    nearestMultiple unit n = 0 ↔ 2 * n.natAbs ≤ unit := by
  have scale : (0 : ℚ) < unit := by exact_mod_cast positive
  have size : 2 * |(n : ℚ) / unit - (0 : Int)| = (2 * n.natAbs : Nat) / unit := by
    rw [abs_div_sub positive, zero_mul, sub_zero, Int.abs_eq_natAbs, Int.cast_natCast, Nat.cast_mul,
      Nat.cast_ofNat, mul_div_assoc]
  have zero : nearestMultiple unit n = 0 ↔ nearestInteger ((n : ℚ) / unit) = 0 := by
    rw [nearestMultiple, mul_eq_zero_iff_right (by exact_mod_cast positive.ne')]
  rw [zero, nearestInteger_eq_iff]
  constructor
  · intro nearest
    have near := nearest.near
    rw [size, div_le_one scale] at near
    exact_mod_cast near
  · intro small
    constructor
    · rw [size, div_le_one scale]
      exact_mod_cast small
    · exact fun _ => Even.zero

theorem nearestMultiple_ne_least {k : Nat} (positive : 0 < k) (n : Int) :
    nearestMultiple (10 ^ k) n ≠ least := by
  obtain ⟨more, rfl⟩ : ∃ more, k = more + 1 := ⟨k - 1, by omega⟩
  intro same
  rw [nearestMultiple, pow_succ] at same
  push_cast at same
  rw [← mul_assoc, least] at same
  omega

end Stepwise.Number

namespace Stepwise.Run

open Number

def sized (n : Int) : Except RuntimeError Number :=
  if n = least then .error .overflow else checked (bounded? n)

theorem toInteger_of_value {x : Float} {n : Int} (known : value? x = some (n : ℚ)) :
    toInteger .towardZero x = sized n := by
  have cut := (value?_eq_intCast_iff.mp known).2
  unfold toInteger
  simp only [isNaN_of_value known, Bool.false_eq_true, if_false, cut]
  rfl

theorem sized_of_lt {n : Int} (small : n.natAbs < 2 ^ 63) :
    ∃ answer : Int64, answer.toInt = n ∧ sized n = .ok (.int answer) := by
  have value : (Int64.ofInt n).toInt = n :=
    toInt_ofInt_of_bounds (by simp only [least]; omega) (by simp only [greatest]; omega)
  refine ⟨Int64.ofInt n, value, ?_⟩
  rw [sized, if_neg (by simp only [least]; omega), bounded?_eq_some_iff.mpr value]
  rfl

theorem sized_of_le {n : Int} (large : 2 ^ 63 ≤ n.natAbs) : sized n = .error .overflow := by
  rw [sized]
  split
  · rfl
  · next other =>
      simp only [least] at other
      rw [bounded?_eq_none_iff.mpr (by simp only [least, greatest]; omega)]
      rfl

/-- An answer is exactly right if it is the integer, or if both are too large. -/
theorem exactly_sized_iff {n m : Int} (apart : m ≠ least) :
    Exactly (numberValue (sized n)) m ↔ n = m ∨ 2 ^ 63 ≤ n.natAbs ∧ 2 ^ 63 ≤ m.natAbs := by
  constructor
  · intro exactly
    obtain ⟨inside, outside⟩ := exactly .empty
    by_cases small : m.natAbs < 2 ^ 63
    · obtain ⟨right, rfl, -⟩ := sized_of_lt small
      have wanted := inside right rfl
      by_cases fits : n.natAbs < 2 ^ 63
      · obtain ⟨answer, rfl, answered⟩ := sized_of_lt fits
        rw [answered] at wanted
        cases wanted
        exact .inl rfl
      · rw [sized_of_le (not_lt.mp fits)] at wanted
        cases wanted
    · have wanted := outside (by simp only [least] at apart; omega)
      by_cases fits : n.natAbs < 2 ^ 63
      · obtain ⟨answer, -, answered⟩ := sized_of_lt fits
        rw [answered] at wanted
        cases wanted
      · exact .inr ⟨not_lt.mp fits, not_lt.mp small⟩
  · rintro (rfl | ⟨large, largeToo⟩)
    · rw [sized, if_neg apart]
      exact exactly_checked n
    · intro heap
      refine ⟨fun i same => ?_, fun _ => ?_⟩
      · have lower := least_le_toInt i
        have upper := toInt_le_greatest i
        simp only [least, greatest] at lower upper apart
        omega
      · rw [sized_of_le large]
        rfl

theorem applyPlain_round (i n : Int64) :
    applyPlain .round [.int i, .int n] [] = numberValue (rounded (.int i) (some n)) := rfl

theorem power?_ten_eq_some {k : Nat} (few : k ≤ 18) :
    ∃ factor, power? 10 k = some factor ∧ factor.toInt = 10 ^ k := by
  have ten : (10 : Int64).toInt = 10 := rfl
  have positive : (0 : Int) < 10 ^ k := by positivity
  have bound : (10 : Int) ^ k ≤ 10 ^ 18 := pow_le_pow_right₀ (by norm_num) few
  have value : (Int64.ofInt (10 ^ k)).toInt = 10 ^ k :=
    toInt_ofInt_of_bounds (by simp only [least]; omega) (by simp only [greatest]; omega)
  refine ⟨Int64.ofInt (10 ^ k), ?_, value⟩
  rw [power?_eq, ten]
  exact bounded?_eq_some_iff.mpr value

theorem power?_ten_eq_none {k : Nat} (many : 18 < k) : power? 10 k = none := by
  have ten : (10 : Int64).toInt = 10 := rfl
  have bound : (10 : Int) ^ 19 ≤ 10 ^ k := pow_le_pow_right₀ (by norm_num) many
  rw [power?_eq, ten]
  exact bounded?_eq_none_iff.mpr (.inr (by simp only [greatest]; omega))

theorem natAbs_toInt_le (i : Int64) : i.toInt.natAbs ≤ 2 ^ 63 := by
  have lower := least_le_toInt i
  have upper := toInt_le_greatest i
  simp only [least, greatest] at lower upper
  omega

theorem rounded_eq_sized (i : Int64) {n : Int64} (negative : n.toInt < 0) :
    rounded (.int i) (some n) = sized (computedMultiple n.toInt.natAbs i.toInt) := by
  have behind : ¬ 0 ≤ n.toInt := not_le.mpr negative
  unfold rounded
  by_cases few : n.toInt.natAbs ≤ 18
  · obtain ⟨factor, power, value⟩ := power?_ten_eq_some few
    have known := value?_computedMultiple few (natAbs_toInt_le i)
    simp only [behind, if_false, power, value]
    exact toInteger_of_value known
  · simp only [behind, if_false, power?_ten_eq_none (not_le.mp few)]
    rw [computedMultiple, if_neg few]
    rfl

/-- Rounding an integer to places before the point.

Where the power of ten has 64 bits, a multiple of it is computed in doubles; each step takes the double
nearest to its exact result.  The answer is this multiple, or zero for larger powers, and an overflow
where its size has not 63 bits.  So the nearest multiple of the integer is the answer exactly if it is
computed, or if both are too large.  It is computed from the double nearest to the integer if that
is small enough for the power, and for integers up to 2^53 this is the integer itself.  Zero
is the nearest multiple up to one half of a larger power. -/
theorem round_nearestMultiple (i n : Int64) (negative : n.toInt < 0) :
    let k := n.toInt.natAbs
    let rounds := applyPlain .round [.int i, .int n] []
    let computed := computedMultiple k i.toInt
    let wanted := nearestMultiple (10 ^ k) i.toInt
    (computed.natAbs < 2 ^ 63 → ∃ answer : Int64, answer.toInt = computed ∧
      ∀ heap, rounds heap = some (.ok (.int answer), heap)) ∧
    (2 ^ 63 ≤ computed.natAbs → ∀ heap, rounds heap = some (.error .overflow, heap)) ∧
    (Exactly rounds wanted ↔
      computed = wanted ∨ 2 ^ 63 ≤ computed.natAbs ∧ 2 ^ 63 ≤ wanted.natAbs) ∧
    (k ≤ 18 → i.toInt.natAbs ≤ 2 ^ (52 + k) →
      computed = nearestMultiple (10 ^ k) (Number.rounded i.toInt)) ∧
    (18 < k → computed = 0 ∧ (wanted = 0 ↔ 2 * i.toInt.natAbs ≤ 10 ^ k)) ∧
    (i.toInt.natAbs ≤ 2 ^ 53 → Exactly rounds wanted) := by
  intro k rounds computed wanted
  have answered : rounds = numberValue (sized computed) := by
    rw [← rounded_eq_sized i negative]
    exact applyPlain_round i n
  have positive : 0 < k := Int.natAbs_pos.mpr negative.ne
  have apart : wanted ≠ least := nearestMultiple_ne_least positive i.toInt
  have decides : Exactly rounds wanted ↔
      computed = wanted ∨ 2 ^ 63 ≤ computed.natAbs ∧ 2 ^ 63 ≤ wanted.natAbs := by
    rw [answered]
    exact exactly_sized_iff apart
  have fine : k ≤ 18 → i.toInt.natAbs ≤ 2 ^ (52 + k) →
      computed = nearestMultiple (10 ^ k) (Number.rounded i.toInt) :=
    fun few bound => computedMultiple_eq positive few (natAbs_toInt_le i) bound
  have coarse : 18 < k → computed = 0 ∧ (wanted = 0 ↔ 2 * i.toInt.natAbs ≤ 10 ^ k) :=
    fun many => ⟨if_neg (not_le.mpr many), nearestMultiple_eq_zero_iff (by positivity) i.toInt⟩
  refine ⟨fun small => ?_, fun large heap => ?_, decides, fine, coarse, fun small => ?_⟩
  · obtain ⟨answer, value, known⟩ := sized_of_lt small
    refine ⟨answer, value, fun heap => ?_⟩
    rw [answered, known]
    rfl
  · rw [answered, sized_of_le large]
    rfl
  · apply decides.mpr
    left
    by_cases few : k ≤ 18
    · have bound : 2 ^ 53 ≤ 2 ^ (52 + k) := Nat.pow_le_pow_right two_pos (by omega)
      rw [fine few (small.trans bound), rounded_of_small small]
    · obtain ⟨nothing, zero⟩ := coarse (not_le.mp few)
      have power : 10 ^ 19 ≤ 10 ^ k := Nat.pow_le_pow_right (by norm_num) (not_le.mp few)
      rw [nothing]
      exact (zero.mpr (by omega)).symm

/-- Of the multiples of ten around 25 the even one is chosen.  A large integer is given back as it is,
though it is no multiple of ten. -/
theorem round_nearestMultiple_large :
    (-1 : Int64).toInt < 0 ∧
      (∀ heap, applyPlain .round [.int 25, .int (-1)] [] heap = some (.ok (.int 20), heap)) ∧
      (∀ heap, applyPlain .round [.int 4611686018427387904, .int (-1)] [] heap =
        some (.ok (.int 4611686018427387904), heap)) ∧
      nearestMultiple 10 4611686018427387904 = 4611686018427387900 := by
  have negative : (-1 : Int64).toInt < 0 := by decide
  refine ⟨negative, fun heap => ?_, fun heap => ?_, by decide +kernel⟩
  · obtain ⟨-, -, -, -, -, exactly⟩ := round_nearestMultiple 25 (-1) negative
    have tie : (20 : Int64).toInt = nearestMultiple (10 ^ 1) 25 := by decide +kernel
    exact (exactly (by decide) heap).1 20 tie
  · obtain ⟨inside, -⟩ := round_nearestMultiple 4611686018427387904 (-1) negative
    have same : computedMultiple 1 4611686018427387904 = (4611686018427387904 : Int64).toInt := by
      decide +kernel
    obtain ⟨answer, value, given⟩ := inside (by decide +kernel)
    obtain rfl := Int64.toInt_inj.mp (value.trans same)
    exact given heap

end Stepwise.Run
