import Stepwise.Proofs.Rounding

/-!
The integers and the doubles nearest to rational numbers.

A double keeps 53 bits of a number.  It is the nearest integer in units of the last of these bits.
-/

namespace Stepwise.Number

/-- The integer nearest to a number; of two that are equally near, the even one. -/
def nearestInteger (q : ℚ) : Int :=
  let whole := ⌊q⌋
  if 2 * (q - whole) < 1 then whole
  else if 1 < 2 * (q - whole) then whole + 1
  else if Even whole then whole else whole + 1

/-- An integer is at most one half away from a number, and even if it is one half away. -/
structure IsNearest (q : ℚ) (n : Int) : Prop where
  near : 2 * |q - n| ≤ 1
  even : 2 * |q - n| = 1 → Even n

theorem isNearest_nearestInteger (q : ℚ) : IsNearest q (nearestInteger q) := by
  have lower := Int.floor_le q
  have upper := Int.lt_floor_add_one q
  have below : |q - ⌊q⌋| = q - ⌊q⌋ := abs_of_nonneg (by linarith)
  have above : |q - (⌊q⌋ + 1 : Int)| = ⌊q⌋ + 1 - q := by
    rw [abs_sub_comm, Int.cast_add, Int.cast_one]
    exact abs_of_nonneg (by linarith)
  simp only [nearestInteger]
  split_ifs with less more even
  · exact ⟨by rw [below]; exact less.le, fun half => by rw [below] at half; linarith⟩
  · exact ⟨by rw [above]; linarith, fun half => by rw [above] at half; linarith⟩
  · exact ⟨by rw [below]; linarith, fun _ => even⟩
  · exact ⟨by rw [above]; linarith, fun _ => Int.even_add_one.mpr even⟩

variable {q : ℚ} {n m : Int}

theorem IsNearest.bounds (nearest : IsNearest q n) : 2 * n - 1 ≤ 2 * q ∧ 2 * q ≤ 2 * n + 1 := by
  have near := nearest.near
  rw [← abs_two, ← abs_mul, abs_le] at near
  constructor <;> linarith

theorem IsNearest.not_lt (first : IsNearest q n) (second : IsNearest q m) : ¬ n < m := by
  intro less
  have upper := first.bounds.2
  have lower := second.bounds.1
  have close : (m : ℚ) ≤ n + 1 := by linarith
  have next : m = n + 1 := le_antisymm (by exact_mod_cast close) less
  -- the number is half-way between the two
  subst next
  push_cast at lower
  have half : q - n = 1 / 2 := by linarith
  have above : q - (n + 1 : Int) = -(1 / 2) := by push_cast; linarith
  have even := first.even (by rw [half]; norm_num)
  have evenToo := second.even (by rw [above]; norm_num)
  exact Int.even_add_one.mp evenToo even

theorem nearestInteger_eq_iff : nearestInteger q = n ↔ IsNearest q n := by
  refine ⟨fun same => same ▸ isNearest_nearestInteger q, fun nearest => ?_⟩
  have found := isNearest_nearestInteger q
  exact le_antisymm (not_lt.mp (nearest.not_lt found)) (not_lt.mp (found.not_lt nearest))

/-- No integer is nearer, and if another one is as near, the chosen one is even. -/
theorem nearestInteger_nearest (q : ℚ) (n : Int) :
    |q - nearestInteger q| ≤ |q - n| ∧
      (|q - n| = |q - nearestInteger q| → n ≠ nearestInteger q → Even (nearestInteger q)) := by
  have nearest := isNearest_nearestInteger q
  by_cases same : n = nearestInteger q
  · rw [same]
    exact ⟨le_rfl, fun _ other => absurd rfl other⟩
  have apart : (1 : ℚ) ≤ |q - n| + |q - nearestInteger q| := by
    have distinct : 1 ≤ |nearestInteger q - n| := Int.one_le_abs (sub_ne_zero.mpr (Ne.symm same))
    calc (1 : ℚ) ≤ |(nearestInteger q : ℚ) - n| := by exact_mod_cast distinct
      _ = |(q - n) - (q - nearestInteger q)| := by congr 1; ring
      _ ≤ |q - n| + |q - nearestInteger q| := abs_sub _ _
  refine ⟨by linarith [nearest.near], fun tie _ => nearest.even ?_⟩
  linarith [nearest.near]

@[simp]
theorem nearestInteger_intCast (n : Int) : nearestInteger n = n := by
  apply nearestInteger_eq_iff.mpr
  constructor <;> simp

theorem nearestInteger_neg (q : ℚ) : nearestInteger (-q) = -nearestInteger q := by
  have nearest := isNearest_nearestInteger q
  have mirrored : |(-q) - (-nearestInteger q : Int)| = |q - nearestInteger q| := by
    rw [← abs_neg (q - nearestInteger q)]
    congr 1
    push_cast
    ring
  apply nearestInteger_eq_iff.mpr
  constructor
  · rw [mirrored]
    exact nearest.near
  · rw [mirrored]
    exact fun half => (nearest.even half).neg

theorem nearestInteger_congr {p : ℚ} (above : ∀ z : Int, z ≤ 2 * q ↔ z ≤ 2 * p)
    (below : ∀ z : Int, 2 * q ≤ z ↔ 2 * p ≤ z) : nearestInteger q = nearestInteger p := by
  apply nearestInteger_eq_iff.mpr
  have nearest := isNearest_nearestInteger p
  generalize nearestInteger p = n at nearest
  have upper := below (2 * n + 1)
  have lower := above (2 * n - 1)
  have upperTie := above (2 * n + 1)
  have lowerTie := below (2 * n - 1)
  push_cast at upper lower upperTie lowerTie
  obtain ⟨near, even⟩ := nearest
  constructor
  · rw [← abs_two, ← abs_mul, abs_le] at near ⊢
    constructor
    · linarith [lower.mpr (by linarith)]
    · linarith [upper.mpr (by linarith)]
  · intro half
    apply even
    rw [← abs_two, ← abs_mul, abs_eq one_pos.le] at half ⊢
    rcases half with half | half
    · exact .inl (by linarith [upper.mp (by linarith), upperTie.mp (by linarith)])
    · exact .inr (by linarith [lower.mp (by linarith), lowerTie.mp (by linarith)])

theorem le_two_mul_div_iff {size unit : Nat} (positive : 0 < unit) (z : Int) :
    (z : ℚ) ≤ 2 * ((size : ℚ) / unit) ↔ z * unit ≤ 2 * (size : Int) := by
  have scale : (0 : ℚ) < unit := by exact_mod_cast positive
  rw [← mul_div_assoc, le_div_iff₀ scale]
  exact_mod_cast Iff.rfl

theorem two_mul_div_le_iff {size unit : Nat} (positive : 0 < unit) (z : Int) :
    2 * ((size : ℚ) / unit) ≤ z ↔ 2 * (size : Int) ≤ z * unit := by
  have scale : (0 : ℚ) < unit := by exact_mod_cast positive
  rw [← mul_div_assoc, div_le_iff₀ scale]
  exact_mod_cast Iff.rfl

theorem nearestInteger_div_two_pow (m k : Nat) :
    nearestInteger ((m : ℚ) / 2 ^ k) = Binary.quotient .halfToEven false m k := by
  have unit : (0 : ℚ) < 2 ^ k := by positivity
  have parts : (m : ℚ) / 2 ^ k = (m / 2 ^ k : Nat) + (m % 2 ^ k : Nat) / 2 ^ k := by
    have whole : ((m / 2 ^ k * 2 ^ k + m % 2 ^ k : Nat) : ℚ) = m := by
      rw [Nat.div_add_mod']
    rw [← whole]
    push_cast
    field_simp
  have small : ((m % 2 ^ k : Nat) : ℚ) / 2 ^ k < 1 := by
    rw [div_lt_one unit]
    exact_mod_cast Nat.mod_lt m (Nat.two_pow_pos k)
  have floor : ⌊(m : ℚ) / 2 ^ k⌋ = (m / 2 ^ k : Nat) := by
    apply Int.floor_eq_iff.mpr
    rw [parts, Int.cast_natCast]
    exact ⟨le_add_of_nonneg_right (by positivity), by linarith⟩
  have rest : 2 * ((m : ℚ) / 2 ^ k - (m / 2 ^ k : Nat)) = (2 * (m % 2 ^ k) : Nat) / (2 ^ k : Nat) := by
    rw [parts]
    push_cast
    ring
  have less : 2 * ((m : ℚ) / 2 ^ k - (m / 2 ^ k : Nat)) < 1 ↔ 2 * (m % 2 ^ k) < 2 ^ k := by
    rw [rest, div_lt_one (by positivity), Nat.cast_lt]
  have more : 1 < 2 * ((m : ℚ) / 2 ^ k - (m / 2 ^ k : Nat)) ↔ 2 ^ k < 2 * (m % 2 ^ k) := by
    rw [rest, one_lt_div (by positivity), Nat.cast_lt]
  simp only [nearestInteger, floor, Int.cast_natCast, less, more, Binary.quotient, Nat.pow_eq,
    Int.even_coe_nat, Nat.even_iff, beq_iff_eq]
  split_ifs <;> rfl

def lastPlace (q : ℚ) : Int := Int.log 2 |q| - 52

/-- The value of the double nearest to a number that is not too large nor too small. -/
def nearestDouble (q : ℚ) : ℚ := nearestInteger (q / 2 ^ lastPlace q) * 2 ^ lastPlace q

theorem lastPlace_eq {e : Int} (lower : (2 : ℚ) ^ (52 + e) ≤ |q|) (upper : |q| < 2 ^ (53 + e)) :
    lastPlace q = e := by
  have positive : 0 < |q| := lt_of_lt_of_le (by positivity) lower
  have least := (Int.zpow_le_iff_le_log one_lt_two positive).mp (by exact_mod_cast lower)
  have greatest := (Int.lt_zpow_iff_log_lt one_lt_two positive).mp (by exact_mod_cast upper)
  rw [lastPlace]
  omega

theorem two_zpow_le_abs (nonzero : q ≠ 0) : (2 : ℚ) ^ (52 + lastPlace q) ≤ |q| := by
  have bound := Int.zpow_log_le_self one_lt_two (abs_pos.mpr nonzero)
  rw [lastPlace, add_sub_cancel]
  exact_mod_cast bound

theorem abs_lt_two_zpow (q : ℚ) : |q| < 2 ^ (53 + lastPlace q) := by
  have bound := Int.lt_zpow_succ_log_self one_lt_two |q|
  rw [lastPlace, show 53 + (Int.log 2 |q| - 52) = Int.log 2 |q| + 1 by ring]
  exact_mod_cast bound

theorem nearestDouble_neg (q : ℚ) : nearestDouble (-q) = -nearestDouble q := by
  rw [nearestDouble, lastPlace, abs_neg, ← lastPlace, neg_div, nearestInteger_neg, nearestDouble]
  push_cast
  ring

theorem abs_sub_nearestDouble_le (q : ℚ) : 2 * |q - nearestDouble q| ≤ 2 ^ lastPlace q := by
  have unit : (0 : ℚ) < 2 ^ lastPlace q := by positivity
  have near := (isNearest_nearestInteger (q / 2 ^ lastPlace q)).near
  have scaled : q - nearestDouble q =
      (q / 2 ^ lastPlace q - nearestInteger (q / 2 ^ lastPlace q)) * 2 ^ lastPlace q := by
    rw [nearestDouble]
    field_simp
  rw [scaled, abs_mul, abs_of_pos unit, ← mul_assoc]
  exact mul_le_of_le_one_left unit.le near

theorem nearestDouble_of_multiple (multiple : q / 2 ^ lastPlace q = n) : nearestDouble q = q := by
  have unit : (2 : ℚ) ^ lastPlace q ≠ 0 := by positivity
  rw [nearestDouble, multiple, nearestInteger_intCast, ← multiple, div_mul_cancel₀ _ unit]

@[simp]
theorem nearestDouble_zero : nearestDouble 0 = 0 :=
  nearestDouble_of_multiple (by rw [zero_div, Int.cast_zero])

theorem lastPlace_mul_two_zpow (nonzero : q ≠ 0) (e : Int) :
    lastPlace (q * 2 ^ e) = lastPlace q + e := by
  have unit : (0 : ℚ) < 2 ^ e := by positivity
  have scaled : |q * 2 ^ e| = |q| * 2 ^ e := by rw [abs_mul, abs_of_pos unit]
  apply lastPlace_eq
  · rw [scaled, ← add_assoc, zpow_add₀ two_ne_zero]
    exact mul_le_mul_of_nonneg_right (two_zpow_le_abs nonzero) unit.le
  · rw [scaled, ← add_assoc, zpow_add₀ two_ne_zero]
    exact mul_lt_mul_of_pos_right (abs_lt_two_zpow q) unit

theorem nearestDouble_mul_two_zpow (q : ℚ) (e : Int) :
    nearestDouble (q * 2 ^ e) = nearestDouble q * 2 ^ e := by
  by_cases zero : q = 0
  · rw [zero, zero_mul, nearestDouble_zero, zero_mul]
  have unit : (2 : ℚ) ^ e ≠ 0 := by positivity
  rw [nearestDouble, lastPlace_mul_two_zpow zero, zpow_add₀ two_ne_zero, mul_div_mul_right _ _ unit,
    ← mul_assoc, nearestDouble]

theorem nearestDouble_of_lt (small : |m| < 2 ^ 53) : nearestDouble m = m := by
  by_cases zero : m = 0
  · rw [zero, Int.cast_zero, nearestDouble_zero]
  have inside : lastPlace m ≤ 0 := by
    have upper : |(m : ℚ)| < 2 ^ (53 : Int) := by exact_mod_cast small
    have lower := two_zpow_le_abs (Int.cast_ne_zero.mpr zero : (m : ℚ) ≠ 0)
    have less := (zpow_lt_zpow_iff_right₀ one_lt_two).mp (lower.trans_lt upper)
    omega
  obtain ⟨more, places⟩ := Int.le.dest inside
  apply nearestDouble_of_multiple (n := m * 2 ^ more)
  rw [div_eq_iff (by positivity), Int.cast_mul, Int.cast_pow, Int.cast_ofNat, mul_assoc,
    ← zpow_natCast, ← zpow_add₀ two_ne_zero, Int.add_comm, places, zpow_zero, mul_one]

theorem nearestDouble_of_fits {e : Int} (fits : |m| ≤ 2 ^ 53) :
    nearestDouble (m * 2 ^ e) = m * 2 ^ e := by
  rw [nearestDouble_mul_two_zpow]
  congr 1
  rcases fits.lt_or_eq with small | full
  · exact nearestDouble_of_lt small
  obtain ⟨bit, one, rfl⟩ : ∃ bit : Int, |bit| = 1 ∧ m = bit * 2 ^ 53 := by
    rcases (abs_eq (by norm_num)).mp full with rfl | rfl
    · exact ⟨1, rfl, rfl⟩
    · exact ⟨-1, rfl, rfl⟩
  have moved := nearestDouble_mul_two_zpow bit 53
  rw [nearestDouble_of_lt (by rw [one]; norm_num)] at moved
  exact_mod_cast moved

theorem nearestDouble_of_bounds {k : Nat} (lower : (2 : ℚ) ^ (52 + k) ≤ q)
    (upper : q < 2 ^ (53 + k)) (e : Int) :
    nearestDouble (q * 2 ^ e) = nearestInteger (q / 2 ^ k) * 2 ^ (e + k) := by
  have exact : |q| = q := abs_of_pos (lt_of_lt_of_le (by positivity) lower)
  have place : lastPlace q = k := by
    apply lastPlace_eq
    · rw [exact]
      exact_mod_cast lower
    · rw [exact]
      exact_mod_cast upper
  rw [nearestDouble_mul_two_zpow, nearestDouble, place, mul_assoc, ← zpow_add₀ two_ne_zero, add_comm e,
    zpow_natCast]

theorem nearestDouble_of_log2 {size k : Nat} (e : Int) (leading : size.log2 = 52 + k) :
    nearestDouble (size * 2 ^ e) =
      (Binary.quotient .halfToEven false size k : ℚ) * 2 ^ (e + k) := by
  have bounds := bounds_of_log2 leading
  have lower : (2 : ℚ) ^ (52 + k) ≤ size := by exact_mod_cast bounds.1
  have upper : (size : ℚ) < 2 ^ (53 + k) := by exact_mod_cast bounds.2
  rw [nearestDouble_of_bounds lower upper, nearestInteger_div_two_pow, Int.cast_natCast]

theorem nearestDouble_natCast (n : Nat) : nearestDouble n = rounded n := by
  by_cases small : n ≤ 2 ^ 53
  · have kept := nearestDouble_of_fits (m := n) (e := 0) (by simpa using small)
    rw [rounded_of_small (by simpa using small)]
    simpa using kept
  · obtain ⟨k, size⟩ := exists_places (n := n) (by simpa using small)
    rw [Int.natAbs_natCast] at size
    have found := nearestDouble_of_log2 0 size
    rw [rounded, Int.sign_eq_one_of_pos (by omega), Int.natAbs_natCast, size, Nat.add_sub_cancel_left]
    simpa using found

theorem nearestDouble_intCast (n : Int) : nearestDouble n = rounded n := by
  obtain ⟨size, rfl | rfl⟩ := n.eq_nat_or_neg
  · exact_mod_cast nearestDouble_natCast size
  · rw [rounded_neg, Int.cast_neg, Int.cast_neg, nearestDouble_neg, Int.cast_natCast,
      nearestDouble_natCast]

end Stepwise.Number
