import Mathlib.Data.List.Forall2
import Mathlib.Data.List.TakeWhile
import Mathlib.Data.Nat.Digits.Defs
import Stepwise.Proofs.Interchange.Reading
import Stepwise.Run.Functions

/-!
Integers that scripts read from text.

A numeral is one or more digits of a base behind some signs.  A text is read as a numeral with at most
two signs: one is taken off before the digits are read, and the reading of the digits, which is bounded
by 128 bits, takes another one.
-/

namespace Stepwise.Run

/-- Numerals of a base by the number of their signs, and the integers that they denote. -/
inductive Numeral (base : Nat) : (signs : Nat) → List Char → Int → Prop where
  | digits {text : List Char} {values : List Nat} : text ≠ [] →
      List.Forall₂ (fun c digit => Number.digitValue? c = some digit ∧ digit < base) text values →
      Numeral base 0 text ((Nat.ofDigits base values.reverse : Nat) : Int)
  | plus {signs : Nat} {text : List Char} {n : Int} :
      Numeral base signs text n → Numeral base (signs + 1) ('+' :: text) n
  | minus {signs : Nat} {text : List Char} {n : Int} :
      Numeral base signs text n → Numeral base (signs + 1) ('-' :: text) (-n)

/-- Whether a text is a numeral with at most some signs that denotes an integer. -/
def NumeralUpTo (base signs : Nat) (text : List Char) (n : Int) : Prop :=
  ∃ count ≤ signs, Numeral base count text n

section

variable {base signs : Nat} {text rest : List Char}

theorem continueNatural?_eq_some_iff {value n : Nat} :
    Number.continueNatural? base value text = some n ↔ ∃ values,
      List.Forall₂ (fun c digit => Number.digitValue? c = some digit ∧ digit < base) text values ∧
        n = values.foldl (fun value digit => value * base + digit) value := by
  induction text generalizing value with
  | nil =>
      simp only [Number.continueNatural?, Option.some.injEq, List.forall₂_nil_left_iff,
        exists_eq_left, List.foldl_nil]
      exact eq_comm
  | cons c rest inductionHypothesis =>
      rw [Number.continueNatural?]
      constructor
      · intro found
        split at found
        next digit shown =>
          split at found
          next small =>
            obtain ⟨values, denoted, same⟩ := inductionHypothesis.mp found
            exact ⟨digit :: values, .cons ⟨shown, small⟩ denoted, same⟩
          next => cases found
        next => cases found
      · rintro ⟨values, denoted, same⟩
        obtain ⟨digit, others, ⟨shown, small⟩, behind, rfl⟩ := List.forall₂_cons_left_iff.mp denoted
        rw [shown]
        simp only [if_pos small]
        exact inductionHypothesis.mpr ⟨others, behind, same⟩

theorem natural?_eq_some_iff {n : Nat} :
    Number.natural? base text = some n ↔ Numeral base 0 text n := by
  have folded (values : List Nat) : values.foldl (fun value digit => value * base + digit) 0 =
      Nat.ofDigits base values.reverse := by
    rw [Nat.ofDigits_eq_foldr, List.foldr_reverse]
    congr 1
    funext value digit
    rw [Nat.cast_id, Nat.add_comm, Nat.mul_comm]
  unfold Number.natural?
  constructor
  · intro found
    split at found
    next => cases found
    next filled =>
      obtain ⟨values, denoted, rfl⟩ := continueNatural?_eq_some_iff.mp found
      rw [folded]
      exact .digits (by simpa using filled) denoted
  · rintro numeral
    generalize same : (n : Int) = m at numeral
    cases numeral with
    | digits filled denoted =>
        rw [if_neg (by simpa using filled), Int.ofNat_inj.mp same, ← folded]
        exact continueNatural?_eq_some_iff.mpr ⟨_, denoted, rfl⟩

theorem Numeral.not_sign {c : Char} {n : Int} (numeral : Numeral base 0 (c :: rest) n) :
    c ≠ '-' ∧ c ≠ '+' := by
  cases numeral with
  | digits _ denoted =>
      obtain ⟨digit, _, ⟨shown, _⟩, _, _⟩ := List.forall₂_cons_left_iff.mp denoted
      constructor <;> rintro rfl <;> cases shown

theorem Numeral.unique {count : Nat} {m n : Int} (first : Numeral base signs text m)
    (second : Numeral base count text n) : signs = count ∧ m = n := by
  induction first generalizing count n with
  | digits filled denoted =>
      have numeral : Numeral base 0 _ _ := .digits filled denoted
      cases second with
      | digits filledToo denotedToo =>
          have other : Numeral base 0 _ _ := .digits filledToo denotedToo
          have found := natural?_eq_some_iff.mpr other
          rw [natural?_eq_some_iff.mpr numeral, Option.some.injEq] at found
          exact ⟨rfl, congrArg Nat.cast found⟩
      | plus _ => exact absurd rfl numeral.not_sign.2
      | minus _ => exact absurd rfl numeral.not_sign.1
  | plus _ inductionHypothesis =>
      cases second with
      | digits filled denoted => exact absurd rfl (Numeral.digits filled denoted).not_sign.2
      | plus behind =>
          obtain ⟨rfl, rfl⟩ := inductionHypothesis behind
          exact ⟨rfl, rfl⟩
  | minus _ inductionHypothesis =>
      cases second with
      | digits filled denoted => exact absurd rfl (Numeral.digits filled denoted).not_sign.1
      | minus behind =>
          obtain ⟨rfl, rfl⟩ := inductionHypothesis behind
          exact ⟨rfl, rfl⟩

namespace NumeralUpTo

variable {n : Int}

theorem zero_iff :
    NumeralUpTo base 0 text n ↔ ∃ size : Nat, Number.natural? base text = some size ∧ n = size := by
  constructor
  · rintro ⟨count, none, numeral⟩
    obtain rfl := Nat.le_zero.mp none
    cases numeral with
    | digits filled denoted => exact ⟨_, natural?_eq_some_iff.mpr (.digits filled denoted), rfl⟩
  · rintro ⟨size, found, rfl⟩
    exact ⟨0, Nat.le_refl 0, natural?_eq_some_iff.mp found⟩

theorem minus_iff :
    NumeralUpTo base (signs + 1) ('-' :: rest) n ↔ NumeralUpTo base signs rest (-n) := by
  constructor
  · rintro ⟨count, few, numeral⟩
    cases numeral with
    | digits filled denoted => exact absurd rfl (Numeral.digits filled denoted).not_sign.1
    | minus behind =>
        rw [Int.neg_neg]
        exact ⟨_, Nat.le_of_succ_le_succ few, behind⟩
  · rintro ⟨count, few, numeral⟩
    have signed := numeral.minus
    rw [Int.neg_neg] at signed
    exact ⟨count + 1, Nat.succ_le_succ few, signed⟩

theorem plus_iff :
    NumeralUpTo base (signs + 1) ('+' :: rest) n ↔ NumeralUpTo base signs rest n := by
  constructor
  · rintro ⟨count, few, numeral⟩
    cases numeral with
    | digits filled denoted => exact absurd rfl (Numeral.digits filled denoted).not_sign.2
    | plus behind => exact ⟨_, Nat.le_of_succ_le_succ few, behind⟩
  · rintro ⟨count, few, numeral⟩
    exact ⟨count + 1, Nat.succ_le_succ few, numeral.plus⟩

theorem plain_iff (minus : ∀ rest, text ≠ '-' :: rest) (plus : ∀ rest, text ≠ '+' :: rest)
    (most : Nat) : NumeralUpTo base signs text n ↔ NumeralUpTo base most text n := by
  have unsigned {count : Nat} (numeral : Numeral base count text n) : count = 0 := by
    cases numeral with
    | digits _ _ => rfl
    | plus _ => exact absurd rfl (plus _)
    | minus _ => exact absurd rfl (minus _)
  constructor <;> rintro ⟨count, _, numeral⟩ <;> obtain rfl := unsigned numeral <;>
    exact ⟨0, Nat.zero_le _, numeral⟩

end NumeralUpTo

def innerValue : List Char → Int → Int
  | '-' :: _, n => -n
  | _, n => n

/-- Whether a numeral without its first sign is in the range that digits are read in. -/
def InReach (text : List Char) (n : Int) : Prop :=
  wideLeast ≤ innerValue text n ∧ innerValue text n ≤ wideGreatest

theorem inReach_of_bounds {n : Int} (lower : Number.least ≤ n) (upper : n ≤ Number.greatest) :
    InReach text n := by
  simp only [Number.least, Number.greatest] at lower upper
  unfold InReach innerValue wideLeast wideGreatest
  split <;> omega

theorem wide_eq_integer_iff {m value : Int} :
    (if wideLeast ≤ value ∧ value ≤ wideGreatest then .integer value else .malformed) =
      IntegerText.integer m ↔ m = value ∧ wideLeast ≤ m ∧ m ≤ wideGreatest := by
  constructor
  · intro same
    split at same
    next inside =>
      obtain rfl := IntegerText.integer.inj same
      exact ⟨rfl, inside⟩
    next => cases same
  · rintro ⟨rfl, inside⟩
    rw [if_pos inside]

theorem signedDigits_eq_integer_iff {m : Int} :
    signedDigits base text = .integer m ↔
      NumeralUpTo base 1 text m ∧ wideLeast ≤ m ∧ m ≤ wideGreatest := by
  unfold signedDigits
  dsimp only
  split
  next rest =>
    rw [NumeralUpTo.minus_iff, NumeralUpTo.zero_iff]
    cases Number.natural? base rest with
    | none => simp
    | some size =>
        simp only [Option.some.injEq, exists_eq_left', neg_eq_iff_eq_neg]
        exact wide_eq_integer_iff
  next rest =>
    rw [NumeralUpTo.plus_iff, NumeralUpTo.zero_iff]
    cases Number.natural? base rest with
    | none => simp
    | some size =>
        simp only [Option.some.injEq, exists_eq_left']
        exact wide_eq_integer_iff
  next minus plus =>
    rw [NumeralUpTo.plain_iff minus plus 0, NumeralUpTo.zero_iff]
    cases Number.natural? base text with
    | none => simp
    | some size =>
        simp only [Option.some.injEq, exists_eq_left']
        exact wide_eq_integer_iff

theorem integerText_eq_integer_iff {n : Int} :
    integerText base text = .integer n ↔ NumeralUpTo base 2 text n ∧ InReach text n := by
  unfold integerText
  split
  next rest =>
    rw [NumeralUpTo.minus_iff]
    refine Iff.trans ?_ (signedDigits_eq_integer_iff (m := -n))
    cases signedDigits base rest with
    | integer value => rw [IntegerText.integer.injEq, IntegerText.integer.injEq, neg_eq_iff_eq_neg]
    | malformed => exact ⟨nofun, nofun⟩
  next rest =>
    rw [NumeralUpTo.plus_iff]
    exact signedDigits_eq_integer_iff
  next minus plus =>
    have inner : innerValue text n = n := by
      unfold innerValue
      split
      next rest => exact absurd rfl (minus rest)
      next => rfl
    rw [NumeralUpTo.plain_iff minus plus 1, InReach, inner]
    exact signedDigits_eq_integer_iff

end

/-- An answer reads a text as a numeral with at most some signs: it is the integer denoted where that
has 64 bits, and an overflow where it has not but is within reach; no other text is read. -/
structure ReadsNumerals (base signs : Nat) (text : List Char) (within : Int → Prop) (shown : String)
    (answer : Except RuntimeError Int64) : Prop where
  ok : ∀ i, answer = .ok i ↔ NumeralUpTo base signs text i.toInt
  overflow : answer = .error .overflow ↔
    ∃ n, NumeralUpTo base signs text n ∧ within n ∧ (n < Number.least ∨ Number.greatest < n)
  malformed : answer = .error (.value (.badIntegerText base shown)) ↔
    ∀ n, NumeralUpTo base signs text n → ¬ within n

section

variable (text : List Char) (shown : String) {base : Int}

theorem readInteger_eq (atLeast : 2 ≤ base) (atMost : base ≤ 36) :
    readInteger text shown base =
      match integerText base.toNat (cleaned text) with
      | .malformed => .error (.value (.badIntegerText base shown))
      | .integer value =>
          match Number.bounded? value with
          | some value => .ok value
          | none => .error .overflow := by
  unfold readInteger
  exact if_neg (by omega)

theorem readInteger_readsNumerals (atLeast : 2 ≤ base) (atMost : base ≤ 36) :
    ReadsNumerals base.toNat 2 (cleaned text) (InReach (cleaned text)) shown
      (readInteger text shown base) := by
  have sameBase : ((base.toNat : Nat) : Int) = base := Int.toNat_of_nonneg (by omega)
  rw [readInteger_eq text shown atLeast atMost]
  cases read : integerText base.toNat (cleaned text) with
  | malformed =>
      have unread {n : Int} (numeral : NumeralUpTo base.toNat 2 (cleaned text) n) :
          ¬ InReach (cleaned text) n := by
        intro within
        rw [integerText_eq_integer_iff.mpr ⟨numeral, within⟩] at read
        cases read
      refine ⟨fun i => ⟨nofun, fun numeral => ?_⟩, ⟨nofun, ?_⟩, ?_⟩
      · exact absurd (inReach_of_bounds (Number.least_le_toInt i) (Number.toInt_le_greatest i))
          (unread numeral)
      · rintro ⟨n, numeral, within, -⟩
        exact absurd within (unread numeral)
      · rw [sameBase]
        exact ⟨fun _ n => unread, fun _ => rfl⟩
  | integer value =>
      obtain ⟨numeral, within⟩ := integerText_eq_integer_iff.mp read
      have only {n : Int} (other : NumeralUpTo base.toNat 2 (cleaned text) n) : n = value := by
        obtain ⟨_, -, first⟩ := numeral
        obtain ⟨_, -, second⟩ := other
        exact (second.unique first).2
      have reached : ¬ ∀ n, NumeralUpTo base.toNat 2 (cleaned text) n → ¬ InReach (cleaned text) n :=
        fun unread => unread value numeral within
      dsimp only
      cases bounded : Number.bounded? value with
      | some j =>
          obtain rfl := Number.bounded?_eq_some_iff.mp bounded
          refine ⟨fun i => ⟨?_, fun other => ?_⟩, ⟨nofun, ?_⟩,
            ⟨nofun, fun unread => absurd unread reached⟩⟩
          · intro same
            obtain rfl := Except.ok.inj same
            exact numeral
          · rw [Int64.toInt_inj.mp (only other)]
          · rintro ⟨n, other, -, outside⟩
            rw [only other] at outside
            have lower := Number.least_le_toInt j
            have upper := Number.toInt_le_greatest j
            omega
      | none =>
          refine ⟨fun i => ⟨nofun, fun other => ?_⟩,
            ⟨fun _ => ⟨value, numeral, within, Number.bounded?_eq_none_iff.mp bounded⟩, fun _ => rfl⟩,
            ⟨nofun, fun unread => absurd unread reached⟩⟩
          rw [← only other, Number.bounded?_toInt] at bounded
          cases bounded

end

/-- Two signs and digits out of reach are all that tells a reading from that of numerals with at most
one sign. -/
theorem ReadsNumerals.one_iff {base : Nat} {text : List Char} {shown : String}
    {answer : Except RuntimeError Int64}
    (reads : ReadsNumerals base 2 text (InReach text) shown answer) :
    ReadsNumerals base 1 text (fun _ => True) shown answer ↔
      (∀ n, Numeral base 2 text n → ¬ InReach text n) ∧
        ∀ n, NumeralUpTo base 1 text n → InReach text n := by
  have two {n : Int} (numeral : Numeral base 2 text n) : NumeralUpTo base 2 text n :=
    ⟨2, Nat.le_refl 2, numeral⟩
  have one {n : Int} : NumeralUpTo base 1 text n → NumeralUpTo base 2 text n
    | ⟨count, few, numeral⟩ => ⟨count, Nat.le_succ_of_le few, numeral⟩
  have split {n : Int} : NumeralUpTo base 2 text n →
      NumeralUpTo base 1 text n ∨ Numeral base 2 text n
    | ⟨count, few, numeral⟩ =>
        if fewer : count ≤ 1 then .inl ⟨count, fewer, numeral⟩
        else .inr (Nat.le_antisymm few (Nat.lt_of_not_le fewer) ▸ numeral)
  have only {m n : Int} (first : NumeralUpTo base 2 text m) (second : NumeralUpTo base 2 text n) :
      m = n := by
    obtain ⟨_, -, first⟩ := first
    obtain ⟨_, -, second⟩ := second
    exact (first.unique second).2
  constructor
  · intro promised
    refine ⟨fun n doubled within => ?_, fun n signed => ?_⟩
    · -- the text is no numeral with one sign, so it would have to be refused
      have refused := promised.malformed.mpr fun m signed => by
        obtain ⟨count, few, numeral⟩ := signed
        have same := (numeral.unique doubled).1
        omega
      exact reads.malformed.mp refused n (two doubled) within
    · by_contra beyond
      have refused := reads.malformed.mpr fun m other => only other (one signed) ▸ beyond
      exact promised.malformed.mp refused n signed trivial
  · rintro ⟨notDoubled, within⟩
    refine ⟨fun i => ?_, ?_, ?_⟩
    · rw [reads.ok]
      refine ⟨fun numeral => (split numeral).resolve_right fun doubled => ?_, one⟩
      exact notDoubled _ doubled
        (inReach_of_bounds (Number.least_le_toInt i) (Number.toInt_le_greatest i))
    · rw [reads.overflow]
      constructor
      · rintro ⟨n, numeral, reached, outside⟩
        have signed := (split numeral).resolve_right fun doubled => notDoubled n doubled reached
        exact ⟨n, signed, trivial, outside⟩
      · rintro ⟨n, signed, -, outside⟩
        exact ⟨n, one signed, within n signed, outside⟩
    · rw [reads.malformed]
      constructor
      · intro unread n signed _
        exact unread n (one signed) (within n signed)
      · intro unread n numeral reached
        rcases split numeral with signed | doubled
        · exact unread n signed trivial
        · exact notDoubled n doubled reached

theorem applyPlain_int (content : String) (base : Int64) (heap : Heap) :
    applyPlain .int [.str content, .int base] [] heap =
      some ((readInteger content.toList (strText content) base.toInt).map Value.int, heap) := by
  change toInt [.str content] (some (.int base)) heap = _
  have integral : integerArgument (.int base) = (pure base : Action Int64) := rfl
  unfold toInt
  dsimp only
  rw [integral, pure_bind]
  cases readInteger content.toList (strText content) base.toInt <;> rfl

theorem applyPlain_int_decimal (content : String) (heap : Heap) :
    applyPlain .int [.str content] [] heap = applyPlain .int [.str content, .int 10] [] heap := rfl

theorem cleaned_integerText (n : Int) :
    cleaned (Number.integerText n).toList = (Number.integerText n).toList := by
  have written {c : Char} (member : c ∈ (Number.integerText n).toList) :
      45 ≤ c.toNat ∧ c.toNat ≤ 57 := by
    have digit {c : Char} (member : c ∈ Number.digits n.natAbs) : 45 ≤ c.toNat ∧ c.toNat ≤ 57 := by
      have bounds := Script.Lexeme.isDigit_eq_true_iff.mp (Script.Lexeme.isDigit_of_mem_digits member)
      omega
    rw [Number.integerText, String.toList_ofList] at member
    split at member
    · rcases List.mem_cons.mp member with rfl | member
      · decide
      · exact digit member
    · exact digit member
  have visible (text : List Char) (inside : ∀ c ∈ text, c ∈ (Number.integerText n).toList) :
      text.dropWhile Text.isBlank = text := by
    refine List.dropWhile_eq_self_iff.mpr fun filled blank => ?_
    have bounds := written (inside _ (List.getElem_mem filled))
    obtain ⟨range, listed, lower, upper⟩ := Text.inRanges_eq_true_iff.mp blank
    have outside : ∀ range ∈ Text.blankRanges, range.2 < 45 ∨ 57 < range.1 := by decide
    have := outside range listed
    omega
  have trimmed : Text.trim (Number.integerText n).toList = (Number.integerText n).toList := by
    rw [Text.trim, Text.trimWhere, visible _ fun _ => id,
      visible _ fun _ member => List.mem_reverse.mp member, List.reverse_reverse]
  rw [cleaned, trimmed]
  refine List.filter_eq_self.mpr fun c member => bne_iff_ne.mpr ?_
  rintro rfl
  have bounds := written member
  revert bounds
  decide

theorem numeralUpTo_integerText (n : Int) : NumeralUpTo 10 1 (Number.integerText n).toList n := by
  have size : Numeral 10 0 (Number.digits n.natAbs) n.natAbs :=
    natural?_eq_some_iff.mp (Script.Lexeme.natural?_digits n.natAbs)
  rw [Number.integerText, String.toList_ofList]
  split
  next negative =>
    have signed := size.minus
    rw [show -(n.natAbs : Int) = n by omega] at signed
    exact ⟨1, Nat.le_refl 1, signed⟩
  next positive =>
    rw [show (n.natAbs : Int) = n by omega] at size
    exact ⟨0, Nat.zero_le 1, size⟩

/-- `int` reads a text of a base, without the blanks around it and the underscores in it, as a numeral
with at most two signs.  It reads numerals with at most one exactly if there are no two in front of
digits within reach and no digits of a numeral are beyond.  What `str` writes of an integer is read as
this integer. -/
theorem int_readsNumerals (content : String) (base : Int64) (atLeast : 2 ≤ base.toInt)
    (atMost : base.toInt ≤ 36) (heap : Heap) :
    let text := cleaned content.toList
    let digits := base.toInt.toNat
    (∃ answer : Except RuntimeError Int64,
      applyPlain .int [.str content, .int base] [] heap = some (answer.map .int, heap) ∧
        ReadsNumerals digits 2 text (InReach text) (strText content) answer ∧
        (ReadsNumerals digits 1 text (fun _ => True) (strText content) answer ↔
          (∀ n, Numeral digits 2 text n → ¬ InReach text n) ∧
            ∀ n, NumeralUpTo digits 1 text n → InReach text n)) ∧
      ∀ i : Int64, ∃ written, applyPlain .str [.int i] [] heap = some (.ok (.str written), heap) ∧
        applyPlain .int [.str written] [] heap = some (.ok (.int i), heap) := by
  intro text digits
  have reads := readInteger_readsNumerals content.toList (strText content) atLeast atMost
  refine ⟨⟨_, applyPlain_int content base heap, reads, reads.one_iff⟩, fun i => ?_⟩
  refine ⟨Number.integerText i.toInt, rfl, ?_⟩
  have decimal : ReadsNumerals 10 2 _ _ _ _ := readInteger_readsNumerals
    (Number.integerText i.toInt).toList (strText (Number.integerText i.toInt))
    (by decide : (2 : Int) ≤ 10) (by decide)
  rw [cleaned_integerText] at decimal
  obtain ⟨count, few, numeral⟩ := numeralUpTo_integerText i.toInt
  have read := (decimal.ok i).mpr ⟨count, Nat.le_succ_of_le few, numeral⟩
  rw [applyPlain_int_decimal, applyPlain_int, show (10 : Int64).toInt = 10 from rfl, read]
  rfl

/-- Two signs are read: the text is no numeral with at most one, and `int` gives 5. -/
theorem int_readsNumerals_twoSigns :
    applyPlain .int [.str "--5", .int 10] [] .empty = some (.ok (.int 5), .empty) ∧
      ∃ answer : Except RuntimeError Int64,
        applyPlain .int [.str "--5", .int 10] [] .empty = some (answer.map .int, .empty) ∧
          ReadsNumerals 10 2 ['-', '-', '5'] (InReach ['-', '-', '5']) (strText "--5") answer ∧
          ¬ ReadsNumerals 10 1 ['-', '-', '5'] (fun _ => True) (strText "--5") answer := by
  have five : Numeral 10 0 ['5'] 5 := natural?_eq_some_iff.mp rfl
  obtain ⟨⟨answer, applied, reads, one⟩, -⟩ :=
    int_readsNumerals "--5" 10 (by decide) (by decide) .empty
  refine ⟨rfl, answer, applied, reads, fun promised => ?_⟩
  exact (one.mp promised).1 _ five.minus.minus ⟨by decide, by decide⟩

end Stepwise.Run
