import Stepwise.Number.Shortest
import Stepwise.Proofs.Doubles

/-!
The numbers that round to a double.

The intervals of two doubles meet at most in an end, which belongs to the one with the even significand.
So a number in the interval of a positive double determines the double.
-/

namespace Stepwise.Number

theorem pow_toNat {base : ℚ} (nonzero : base ≠ 0) (e : Int) :
    base ^ e.toNat = base ^ e * base ^ (-e).toNat := by
  rw [← zpow_natCast base e.toNat, ← zpow_natCast base (-e).toNat, ← zpow_add₀ nonzero]
  congr 1
  omega

namespace Binary

def NearBelow (significand : Nat) (exponent : Int) : Prop :=
  significand = hiddenBit ∧ leastExponent < exponent

instance (significand : Nat) (exponent : Int) : Decidable (NearBelow significand exponent) :=
  inferInstanceAs (Decidable (_ ∧ _))

def lowerEnd (significand : Nat) (exponent : Int) : ℚ :=
  (significand - if NearBelow significand exponent then 1 / 4 else 1 / 2) * 2 ^ exponent

def upperEnd (significand : Nat) (exponent : Int) : ℚ := (significand + 1 / 2) * 2 ^ exponent

/-- Whether a number rounds to `significand * 2 ^ exponent`; halfway it does if the significand is
even. -/
def Rounds (significand : Nat) (exponent : Int) (x : ℚ) : Prop :=
  if significand % 2 = 0 then lowerEnd significand exponent ≤ x ∧ x ≤ upperEnd significand exponent
  else lowerEnd significand exponent < x ∧ x < upperEnd significand exponent

variable {m n : Nat} {p q : Int} {x : ℚ}

theorem lowerEnd_lt (m : Nat) (p : Int) : lowerEnd m p < m * 2 ^ p := by
  have unit : (0 : ℚ) < 2 ^ p := by positivity
  unfold lowerEnd
  gcongr
  split <;> linarith

theorem lt_upperEnd (m : Nat) (p : Int) : (m : ℚ) * 2 ^ p < upperEnd m p := by
  unfold upperEnd
  gcongr
  linarith

theorem rounds_of_inside (above : lowerEnd m p < x) (below : x < upperEnd m p) : Rounds m p x := by
  unfold Rounds
  split
  · exact ⟨above.le, below.le⟩
  · exact ⟨above, below⟩

theorem Rounds.bounds (rounds : Rounds m p x) : lowerEnd m p ≤ x ∧ x ≤ upperEnd m p := by
  unfold Rounds at rounds
  split at rounds
  · exact rounds
  · exact ⟨rounds.1.le, rounds.2.le⟩

/-- A double with an odd significand has no end of its interval. -/
theorem Rounds.inside (rounds : Rounds m p x) (odd : m % 2 = 1) :
    lowerEnd m p < x ∧ x < upperEnd m p := by
  rwa [Rounds, if_neg (by omega)] at rounds

theorem Rounds.pos (rounds : Rounds m p x) (positive : 0 < m) : 0 < x := by
  have whole : (1 : ℚ) ≤ m := by exact_mod_cast positive
  refine lt_of_lt_of_le ?_ rounds.bounds.1
  unfold lowerEnd
  refine mul_pos ?_ (by positivity)
  split <;> linarith

theorem Fits.upperEnd_of_lt (first : Fits m p) (below : m < n) :
    upperEnd m p < lowerEnd n p ∨ upperEnd m p = lowerEnd n p ∧ (m % 2 = 1 ∨ n % 2 = 1) := by
  have unit : (0 : ℚ) < 2 ^ p := by positivity
  rcases Nat.eq_or_lt_of_le (Nat.succ_le_of_lt below) with next | beyond
  · have even : ¬ NearBelow n p := by
      rintro ⟨least, above⟩
      have full := first.full
      omega
    refine .inr ⟨?_, by omega⟩
    rw [upperEnd, lowerEnd, if_neg even, ← next]
    push_cast
    ring
  · have apart : (m : ℚ) + 2 ≤ n := by exact_mod_cast beyond
    left
    unfold upperEnd lowerEnd
    gcongr
    split <;> linarith

theorem Fits.upperEnd_of_exponent_lt (first : Fits m p) (second : Fits n q) (below : p < q) :
    upperEnd m p < lowerEnd n q ∨ upperEnd m p = lowerEnd n q ∧ m % 2 = 1 := by
  have unit : (0 : ℚ) < 2 ^ q := by positivity
  have upper : upperEnd m p ≤ (m + 1 / 2) / 2 * 2 ^ q := by
    calc upperEnd m p = (m + 1 / 2) / 2 * 2 ^ (p + 1) := by
          rw [upperEnd, zpow_add_one₀ two_ne_zero]
          ring
      _ ≤ (m + 1 / 2) / 2 * 2 ^ q := by
          gcongr
          · exact one_le_two
          · exact below
  have lower : (hiddenBit - 1 / 4 : ℚ) * 2 ^ q ≤ lowerEnd n q := by
    have least : leastExponent < q := lt_of_le_of_lt first.least_le below
    have full : hiddenBit ≤ n := second.full.resolve_right least.ne'
    rw [lowerEnd]
    by_cases near : NearBelow n q
    · rw [if_pos near, near.1]
    · have more : hiddenBit + 1 ≤ n :=
        Nat.succ_le_of_lt (lt_of_le_of_ne full fun same => near ⟨same.symm, least⟩)
      have size : (hiddenBit : ℚ) + 1 ≤ n := by exact_mod_cast more
      rw [if_neg near]
      gcongr ?_ * _
      linarith
  rcases Nat.eq_or_lt_of_le (Nat.succ_le_of_lt first.lt) with last | less
  · -- only the last double of its exponent reaches the end
    have odd : m % 2 = 1 := by omega
    have size : (m : ℚ) + 1 = 2 * hiddenBit := by exact_mod_cast last
    have meets : upperEnd m p ≤ lowerEnd n q := by
      refine upper.trans (le_of_eq_of_le ?_ lower)
      rw [eq_sub_of_add_eq size]
      ring
    exact meets.lt_or_eq.imp_right fun same => ⟨same, odd⟩
  · have size : (m : ℚ) + 2 ≤ 2 * hiddenBit := by exact_mod_cast less
    refine .inl (lt_of_le_of_lt upper (lt_of_lt_of_le ?_ lower))
    gcongr
    linarith

theorem Fits.upperEnd_cases (first : Fits m p) (second : Fits n q)
    (below : (m : ℚ) * 2 ^ p < n * 2 ^ q) :
    upperEnd m p < lowerEnd n q ∨
      upperEnd m p = lowerEnd n q ∧ (m % 2 = 1 ∨ n % 2 = 1) := by
  rcases lt_trichotomy p q with less | rfl | more
  · exact (first.upperEnd_of_exponent_lt second less).imp_right fun ⟨same, odd⟩ => ⟨same, .inl odd⟩
  · have unit : (0 : ℚ) < 2 ^ p := by positivity
    have less : m < n := by exact_mod_cast (mul_lt_mul_iff_left₀ unit).mp below
    exact first.upperEnd_of_lt less
  · exact absurd (second.lt_of_exponent first more) below.not_gt

theorem Rounds.not_lt (first : Fits m p) (second : Fits n q) (rounds : Rounds m p x)
    (roundsToo : Rounds n q x) : ¬ (m : ℚ) * 2 ^ p < n * 2 ^ q := by
  intro below
  have upper := rounds.bounds.2
  have lower := roundsToo.bounds.1
  rcases first.upperEnd_cases second below with apart | ⟨meet, odd | odd⟩
  · linarith
  · have inside := (rounds.inside odd).2
    linarith
  · have inside := (roundsToo.inside odd).1
    linarith

theorem Rounds.unique (first : Fits m p) (second : Fits n q) (rounds : Rounds m p x)
    (roundsToo : Rounds n q x) : p = q ∧ m = n := by
  have above := rounds.not_lt first second roundsToo
  have below := roundsToo.not_lt second first rounds
  have same := (first.eq_iff second).mpr (le_antisymm (le_of_not_gt below) (le_of_not_gt above))
  rw [Ordering.then_eq_eq, compare_eq_iff_eq, compare_eq_iff_eq] at same
  exact same

end Binary

end Stepwise.Number
