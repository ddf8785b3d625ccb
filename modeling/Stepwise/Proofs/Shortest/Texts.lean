import Stepwise.Number.Reading
import Stepwise.Proofs.Lexing.Lexemes
import Stepwise.Proofs.Shortest.Grids

/-!
Numbers can be told apart by their texts.

The text of a finite double, without its sign, is read as a decimal that rounds to the double, so two
doubles with one text are the same.  The point or the exponent in it tells it from the text of an
integer.
-/

namespace Stepwise.Number

theorem sign_eq {s t : Float.Model.UnpackedFloat.Sign}
    (same : (s == .negative) = (t == .negative)) : s = t := by
  cases s <;> cases t <;> first | rfl | cases same

theorem Binary.ofUnpacked_injective : Function.Injective Binary.ofUnpacked := by
  intro u z same
  cases u with
  | notANumber =>
      cases z with
      | notANumber => rfl
      | _ => cases same
  | infinity s =>
      cases z with
      | infinity t => rw [sign_eq (Binary.infinite.inj same)]
      | _ => cases same
  | zero s =>
      cases z with
      | zero t => rw [sign_eq (Binary.finite.inj same).1]
      | finite t n q positive => exact absurd (Binary.finite.inj same).2.1 positive.ne
      | _ => cases same
  | finite s m p positive =>
      cases z with
      | zero t => exact absurd (Binary.finite.inj same).2.1 positive.ne'
      | finite t n q positiveToo =>
          obtain ⟨signs, rfl, rfl⟩ := Binary.finite.inj same
          rw [sign_eq signs]
      | _ => cases same

theorem pack_unpack_toModel (x : Float) :
    x.toModel.unpack.pack .binary64 = x.toBits.toBitVec := by
  have packed := @Float.Model.UnpackedFloat.pack_unpack .binary64 x.toBits.toBitVec (by decide)
  refine Eq.trans packed ?_
  split
  · next isNaN =>
      simp only [Float.Model.UnpackedFloat.isNaNBits, decide_eq_true_eq] at isNaN
      exact (x.toModel.valid.eq_packedNaN isNaN.1 isNaN.2).symm
  · rfl

theorem Binary.ofFloat_injective : Function.Injective Binary.ofFloat := by
  intro x y same
  rw [ofFloat_eq, ofFloat_eq] at same
  have unpacked := ofUnpacked_injective same
  rw [← Float.toBits_inj, ← UInt64.toBitVec_inj, ← pack_unpack_toModel, ← pack_unpack_toModel, unpacked]

theorem continueNatural?_eq_map (base value : Nat) (text : List Char) :
    continueNatural? base value text =
      (continueNatural? base 0 text).map (value * base ^ text.length + ·) := by
  induction text generalizing value with
  | nil => simp [continueNatural?]
  | cons c text inductionHypothesis =>
      simp only [continueNatural?, List.length_cons]
      split
      · next digit _ =>
          split
          · rw [inductionHypothesis, inductionHypothesis (0 * base + digit), Option.map_map]
            congr 1
            funext n
            simp only [Function.comp_apply]
            ring
          · rfl
      · rfl

theorem continueNatural?_replicate_zero (base count : Nat) (positive : 0 < base) :
    continueNatural? base 0 (List.replicate count '0') = some 0 := by
  induction count with
  | zero => rfl
  | succ count inductionHypothesis =>
      have zero : digitValue? '0' = some 0 := rfl
      simpa [List.replicate_succ, continueNatural?, zero, positive] using inductionHypothesis

theorem continueNatural?_padded (width n : Nat) :
    continueNatural? 10 0 (padded width (digits n)) = some n := by
  rw [padded, Script.Lexeme.continueNatural?_append,
    continueNatural?_replicate_zero 10 _ (by decide), Option.bind_some]
  exact Script.Lexeme.continueNatural?_digits n

theorem length_padded {width : Nat} {text : List Char} (fits : text.length ≤ width) :
    (padded width text).length = width := by
  rw [padded, List.length_append, List.length_replicate]
  omega

theorem length_digits_le {n width : Nat} (small : n < 10 ^ width) (some : 0 < width) :
    (digits n).length ≤ width :=
  (Nat.length_toDigits_le_iff (by decide) some).mpr small

theorem isDigit_digits (n : Nat) : ∀ c ∈ digits n, Text.isDigit c = true :=
  fun _ => Script.Lexeme.isDigit_of_mem_digits

theorem isDigit_of_mem_padded {width n : Nat} {c : Char} (member : c ∈ padded width (digits n)) :
    Text.isDigit c = true := by
  rcases List.mem_append.mp member with zero | digit
  · rw [(List.mem_replicate.mp zero).2]
    rfl
  · exact isDigit_digits n c digit

theorem digits_ne_nil (n : Nat) : digits n ≠ [] := Nat.toDigits_ne_nil

theorem natural?_of_ne_nil {text : List Char} (filled : text ≠ []) :
    natural? 10 text = continueNatural? 10 0 text := by
  rw [natural?, if_neg (by simpa using filled)]

theorem span_append {test : Char → Bool} {front : List Char} (inside : ∀ c ∈ front, test c = true)
    (rest : List Char) (ends : ∀ c ∈ rest.head?, test c = false) :
    (front ++ rest).takeWhile test = front ∧ (front ++ rest).dropWhile test = rest := by
  rw [List.takeWhile_append_of_pos inside, List.dropWhile_append_of_pos inside]
  cases rest with
  | nil => simp
  | cons c rest => simp [ends c rfl]

section

variable {whole fraction more : List Char} {n : Nat}
  (wholeDigits : ∀ c ∈ whole, Text.isDigit c = true)

include wholeDigits

theorem decimal?_point (fractionDigits : ∀ c ∈ fraction, Text.isDigit c = true)
    (known : natural? 10 (whole ++ fraction) = some n) :
    decimal? (whole ++ '.' :: fraction) = some ⟨n, -fraction.length⟩ := by
  obtain ⟨taken, left⟩ := span_append wholeDigits ('.' :: fraction) (by simp; decide)
  obtain ⟨takenToo, leftToo⟩ := span_append fractionDigits [] nofun
  rw [List.append_nil] at takenToo leftToo
  simp only [decimal?, taken, left, takenToo, leftToo, known]

theorem decimal?_point_exponent (fractionDigits : ∀ c ∈ fraction, Text.isDigit c = true)
    (known : natural? 10 (whole ++ fraction) = some n) :
    decimal? (whole ++ '.' :: (fraction ++ 'e' :: more)) =
      (exponent? more).map fun exponent => ⟨n, -fraction.length + exponent⟩ := by
  obtain ⟨taken, left⟩ := span_append wholeDigits ('.' :: (fraction ++ 'e' :: more))
    (by simp; decide)
  obtain ⟨takenToo, leftToo⟩ := span_append fractionDigits ('e' :: more) (by simp; decide)
  simp only [decimal?, taken, left, takenToo, leftToo, known]
  rfl

theorem decimal?_exponent (known : natural? 10 whole = some n) :
    decimal? (whole ++ 'e' :: more) = (exponent? more).map fun exponent => ⟨n, exponent⟩ := by
  obtain ⟨taken, left⟩ := span_append wholeDigits ('e' :: more) (by simp; decide)
  simp only [decimal?, taken, left]
  simp [known]

end

theorem exponent?_padded (width : Nat) (exponent : Int) :
    exponent? ((if exponent < 0 then '-' else '+') :: padded width (digits exponent.natAbs)) =
      some exponent := by
  have filled : padded width (digits exponent.natAbs) ≠ [] :=
    List.append_ne_nil_of_right_ne_nil _ (digits_ne_nil _)
  have known := continueNatural?_padded width exponent.natAbs
  rw [← natural?_of_ne_nil filled] at known
  split
  · rw [exponent?, known]
    exact congrArg some (show -(exponent.natAbs : Int) = exponent by omega)
  · rw [exponent?, known]
    exact congrArg some (show (exponent.natAbs : Int) = exponent by omega)

theorem decimal?_plain (decimal : Decimal) :
    ∃ read, decimal? (plain decimal) = some read ∧ read.value = decimal.value := by
  unfold plain
  split
  · next nonneg =>
      let n := decimal.digits * Nat.pow 10 decimal.exponent.toNat
      have known : natural? 10 (digits n ++ ['0']) = some (n * 10) := by
        rw [natural?_of_ne_nil (by simp), Script.Lexeme.continueNatural?_append,
          Script.Lexeme.continueNatural?_digits]
        rfl
      refine ⟨_, decimal?_point (isDigit_digits n) (by simp; decide) known, ?_⟩
      have scale : (decimal.exponent.toNat : Int) = decimal.exponent := Int.toNat_of_nonneg nonneg
      have unit : ((Nat.pow 10 decimal.exponent.toNat : Nat) : ℚ) = 10 ^ decimal.exponent := by
        rw [Nat.pow_eq, Nat.cast_pow, ← zpow_natCast, scale]
        rfl
      simp only [Decimal.value, n, Nat.cast_mul, unit, List.length_singleton]
      norm_num
      ring
  · next negative =>
      let places := (-decimal.exponent).toNat
      have positive : 0 < places := by omega
      have small : decimal.digits % 10 ^ places < 10 ^ places := Nat.mod_lt _ (by positivity)
      have length := length_padded (length_digits_le small positive)
      have known : natural? 10 (digits (decimal.digits / 10 ^ places) ++
          padded places (digits (decimal.digits % 10 ^ places))) = some decimal.digits := by
        rw [natural?_of_ne_nil (List.append_ne_nil_of_left_ne_nil (digits_ne_nil _) _),
          Script.Lexeme.continueNatural?_append, Script.Lexeme.continueNatural?_digits,
          Option.bind_some, continueNatural?_eq_map, continueNatural?_padded, length, Option.map_some,
          Nat.div_add_mod']
      refine ⟨decimal, ?_, rfl⟩
      have read := decimal?_point (isDigit_digits _) (fun _ => isDigit_of_mem_padded) known
      rw [length] at read
      have scale : -(places : Int) = decimal.exponent := by omega
      rw [scale] at read
      exact read

theorem decimal?_scientific (width : Nat) (decimal : Decimal) :
    decimal? (scientific width decimal) = some decimal := by
  have inside := isDigit_digits decimal.digits
  have known := Script.Lexeme.natural?_digits decimal.digits
  have filled := digits_ne_nil decimal.digits
  unfold scientific
  simp only
  generalize digits decimal.digits = text at *
  match text with
  | [] => exact absurd rfl filled
  | [first] =>
      simp only
      rw [decimal?_exponent inside known, exponent?_padded, List.length_singleton]
      exact congrArg some (congrArg (Decimal.mk _) (by push_cast; ring))
  | first :: second :: rest =>
      have start : ∀ c ∈ [first], Text.isDigit c = true := by simpa using inside first List.mem_cons_self
      have fraction : ∀ c ∈ second :: rest, Text.isDigit c = true :=
        fun c member => inside c (List.mem_cons_of_mem first member)
      refine (decimal?_point_exponent start fraction known).trans ?_
      rw [exponent?_padded]
      refine congrArg some (congrArg (Decimal.mk _) ?_)
      simp only [List.length_cons]
      push_cast
      ring

def isNumeric (c : Char) : Bool := Text.isDigit c || ['.', 'e', '+', '-'].contains c

theorem isNumeric_of_isDigit {c : Char} (digit : Text.isDigit c = true) : isNumeric c = true := by
  rw [isNumeric, digit, Bool.true_or]

def StartsWithDigit (text : List Char) : Prop := ∃ c rest, text = c :: rest ∧ Text.isDigit c = true

theorem startsWithDigit_of_digits {whole : List Char} (filled : whole ≠ [])
    (inside : ∀ c ∈ whole, Text.isDigit c = true) (rest : List Char) :
    StartsWithDigit (whole ++ rest) := by
  obtain ⟨c, more, rfl⟩ := List.exists_cons_of_ne_nil filled
  exact ⟨c, _, rfl, inside c List.mem_cons_self⟩

structure Fractional (text : List Char) : Prop where
  starts : StartsWithDigit text
  numeric : ∀ c ∈ text, isNumeric c = true
  marked : '.' ∈ text ∨ 'e' ∈ text

theorem fractional_of_digits {whole rest : List Char} {mark : Char} (filled : whole ≠ [])
    (inside : ∀ c ∈ whole, Text.isDigit c = true) (marks : mark = '.' ∨ mark = 'e')
    (numeric : ∀ c ∈ rest, isNumeric c = true) : Fractional (whole ++ mark :: rest) where
  starts := startsWithDigit_of_digits filled inside (mark :: rest)
  numeric := by
    intro c member
    rcases List.mem_append.mp member with digit | behind
    · exact isNumeric_of_isDigit (inside c digit)
    · rcases List.mem_cons.mp behind with rfl | behind
      · rcases marks with rfl | rfl <;> decide
      · exact numeric c behind
  marked := by
    have present : mark ∈ whole ++ mark :: rest := by simp
    rcases marks with rfl | rfl
    · exact .inl present
    · exact .inr present

theorem fractional_plain (decimal : Decimal) : Fractional (plain decimal) := by
  unfold plain
  split
  · exact fractional_of_digits (digits_ne_nil _) (isDigit_digits _) (.inl rfl) (by simp; decide)
  · exact fractional_of_digits (digits_ne_nil _) (isDigit_digits _) (.inl rfl) fun c member =>
      isNumeric_of_isDigit (isDigit_of_mem_padded member)

theorem fractional_scientific (width : Nat) (decimal : Decimal) :
    Fractional (scientific width decimal) := by
  have inside := isDigit_digits decimal.digits
  have filled := digits_ne_nil decimal.digits
  unfold scientific
  simp only
  generalize digits decimal.digits = text at *
  generalize decimal.exponent + (text.length : Int) - 1 = exponent
  have scale : ∀ c ∈ (if exponent < 0 then '-' else '+') :: padded width (digits exponent.natAbs),
      isNumeric c = true := by
    intro c member
    rcases List.mem_cons.mp member with rfl | digit
    · split <;> decide
    · exact isNumeric_of_isDigit (isDigit_of_mem_padded digit)
  match text with
  | [] => exact absurd rfl filled
  | [first] => exact fractional_of_digits filled inside (.inr rfl) scale
  | first :: second :: rest =>
      have start : ∀ c ∈ [first], Text.isDigit c = true := by
        simpa using inside first List.mem_cons_self
      change Fractional ([first] ++ '.' :: (second :: rest ++ 'e' :: _))
      refine fractional_of_digits (List.cons_ne_nil first []) start (.inl rfl) fun c member => ?_
      rcases List.mem_append.mp member with digit | behind
      · exact isNumeric_of_isDigit (inside c (List.mem_cons_of_mem first digit))
      · rcases List.mem_cons.mp behind with rfl | behind
        · rfl
        · exact scale c behind

namespace Layout

/-- The text of a finite double without its sign. -/
def size (layout : Layout) (significand : Nat) (exponent : Int) : List Char :=
  if significand = 0 then ['0', '.', '0']
  else
    let decimal := shortest layout.tie significand exponent
    let place := decimal.exponent + (digits decimal.digits).length - 1
    if layout.leastPlain ≤ place ∧ place < layout.endPlain then plain decimal
    else scientific layout.exponentWidth decimal

theorem text_eq (layout : Layout) (x : Float) : layout.text x =
    match Binary.ofFloat x with
    | .notANumber => layout.notANumber
    | .infinite negative => if negative then layout.negativeInfinite else layout.infinite
    | .finite negative significand exponent =>
        String.ofList (if negative then '-' :: layout.size significand exponent
          else layout.size significand exponent) := rfl

variable {layout : Layout} {m n : Nat} {p q : Int}

open Binary (Fits Rounds)

theorem decimal?_size (layout : Layout) (fits : Fits m p) :
    ∃ read, decimal? (layout.size m p) = some read ∧
      (m = 0 ∧ read.value = 0 ∨ 0 < m ∧ Rounds m p read.value) := by
  unfold size
  split
  · next zero => exact ⟨⟨0, -1⟩, rfl, .inl ⟨zero, by simp [Decimal.value]⟩⟩
  · next nonzero =>
      have positive := Nat.pos_of_ne_zero nonzero
      have rounds := shortest_rounds layout.tie fits positive
      simp only
      split
      · obtain ⟨read, found, same⟩ := decimal?_plain (shortest layout.tie m p)
        exact ⟨read, found, .inr ⟨positive, same ▸ rounds⟩⟩
      · exact ⟨_, decimal?_scientific layout.exponentWidth _, .inr ⟨positive, rounds⟩⟩

theorem eq_of_size (first : Fits m p) (second : Fits n q)
    (same : layout.size m p = layout.size n q) : m = n ∧ p = q := by
  obtain ⟨read, found, known⟩ := layout.decimal?_size first
  obtain ⟨readToo, foundToo, knownToo⟩ := layout.decimal?_size second
  rw [same, foundToo, Option.some.injEq] at found
  subst found
  rcases known with ⟨rfl, zero⟩ | ⟨positive, rounds⟩ <;>
    rcases knownToo with ⟨rfl, zeroToo⟩ | ⟨positiveToo, roundsToo⟩
  · have least : ¬ Binary.hiddenBit ≤ 0 := by decide
    exact ⟨rfl, (first.full.resolve_left least).trans (second.full.resolve_left least).symm⟩
  · exact absurd zero (roundsToo.pos positiveToo).ne'
  · exact absurd zeroToo (rounds.pos positive).ne'
  · exact (Rounds.unique first second rounds roundsToo).symm

theorem fractional_size (layout : Layout) (m : Nat) (p : Int) : Fractional (layout.size m p) := by
  unfold size
  split
  · exact fractional_of_digits (List.cons_ne_nil '0' []) (by simp; decide) (.inl rfl) (by simp; decide)
  · simp only
    split
    · exact fractional_plain _
    · exact fractional_scientific _ _

end Layout

def signed (negative : Bool) (text : List Char) : List Char :=
  if negative then '-' :: text else text

theorem Layout.script_text_finite {x : Float} {negative : Bool} {m : Nat} {p : Int}
    (found : Binary.ofFloat x = .finite negative m p) :
    Layout.script.text x = String.ofList (signed negative (Layout.script.size m p)) := by
  rw [text_eq, found]
  rfl

def isSpecial (word : String) : Prop := word = "nan" ∨ word = "inf" ∨ word = "-inf"

theorem Layout.script_text_special {x : Float} : isSpecial (Layout.script.text x) ∨
    ∃ negative m p, Binary.ofFloat x = .finite negative m p := by
  rw [text_eq]
  cases Binary.ofFloat x with
  | notANumber => exact .inl (.inl rfl)
  | infinite negative => cases negative <;> simp [isSpecial, Layout.script]
  | finite negative m p => exact .inr ⟨_, _, _, rfl⟩

theorem eq_of_signed {text other : List Char} (first : StartsWithDigit text)
    (second : StartsWithDigit other) {negative otherNegative : Bool}
    (same : signed negative text = signed otherNegative other) :
    negative = otherNegative ∧ text = other := by
  obtain ⟨c, rest, rfl, digit⟩ := first
  obtain ⟨d, more, rfl, digitToo⟩ := second
  cases negative <;> cases otherNegative
  · exact ⟨rfl, same⟩
  · obtain ⟨rfl, -⟩ := List.cons.inj same
    cases digit
  · obtain ⟨rfl, -⟩ := List.cons.inj same
    cases digitToo
  · exact ⟨rfl, (List.cons.inj same).2⟩

theorem signed_ne_nil {text : List Char} (starts : StartsWithDigit text) (negative : Bool) :
    signed negative text ≠ [] := by
  obtain ⟨c, rest, rfl, -⟩ := starts
  cases negative <;> exact List.cons_ne_nil _ _

theorem Fractional.numeric_signed {text : List Char} (fractional : Fractional text)
    (negative : Bool) : ∀ c ∈ signed negative text, isNumeric c = true := by
  intro c member
  cases negative with
  | false => exact fractional.numeric c member
  | true =>
      rcases List.mem_cons.mp member with rfl | inside
      · rfl
      · exact fractional.numeric c inside

theorem isSpecial.mem {word : String} (special : isSpecial word) : 'n' ∈ word.toList := by
  rcases special with rfl | rfl | rfl <;> decide

theorem Fractional.not_special {text : List Char} (fractional : Fractional text) (negative : Bool) :
    ¬ isSpecial (String.ofList (signed negative text)) := by
  intro special
  have member := special.mem
  rw [String.toList_ofList] at member
  have numeric := fractional.numeric_signed negative 'n' member
  revert numeric
  decide

theorem ofFloat_eq_of_text {x y : Float} {negative : Bool} {m : Nat} {p : Int}
    (found : Binary.ofFloat x = .finite negative m p)
    (same : Layout.script.text y = Layout.script.text x) : Binary.ofFloat y = Binary.ofFloat x := by
  have fractional := Layout.fractional_size .script m p
  rw [Layout.script_text_finite found] at same
  rcases Layout.script_text_special (x := y) with special | ⟨otherNegative, n, q, foundToo⟩
  · exact absurd (same ▸ special) (fractional.not_special negative)
  · rw [Layout.script_text_finite foundToo, String.ofList_inj] at same
    obtain ⟨rfl, sizes⟩ :=
      eq_of_signed (Layout.fractional_size .script n q).starts fractional.starts same
    obtain ⟨rfl, rfl⟩ :=
      Layout.eq_of_size (Binary.fits_of_ofBits foundToo) (Binary.fits_of_ofBits found) sizes
    exact foundToo.trans found.symm

theorem script_text_injective : Function.Injective Layout.script.text := by
  intro x y same
  refine Binary.ofFloat_injective ?_
  cases found : Binary.ofFloat x with
  | finite negative m p => exact ((ofFloat_eq_of_text found same.symm).trans found).symm
  | notANumber =>
      cases foundToo : Binary.ofFloat y with
      | finite => exact found.symm.trans ((ofFloat_eq_of_text foundToo same).trans foundToo)
      | notANumber => rfl
      | infinite negative =>
          rw [Layout.text_eq, Layout.text_eq, found, foundToo] at same
          cases negative <;> exact absurd same (by decide)
  | infinite negative =>
      cases foundToo : Binary.ofFloat y with
      | finite => exact found.symm.trans ((ofFloat_eq_of_text foundToo same).trans foundToo)
      | notANumber =>
          rw [Layout.text_eq, Layout.text_eq, found, foundToo] at same
          cases negative <;> exact absurd same (by decide)
      | infinite otherNegative =>
          rw [Layout.text_eq, Layout.text_eq, found, foundToo] at same
          cases negative <;> cases otherNegative <;>
            first | rfl | exact absurd same (by decide)

theorem integerText_eq (n : Int) :
    integerText n = String.ofList (signed (decide (n < 0)) (digits n.natAbs)) := by
  simp [integerText, signed]

theorem startsWithDigit_digits (n : Nat) : StartsWithDigit (digits n) := by
  have starts := startsWithDigit_of_digits (digits_ne_nil n) (isDigit_digits n) []
  rwa [List.append_nil] at starts

theorem integerText_injective : Function.Injective integerText := by
  intro m n same
  rw [integerText_eq, integerText_eq, String.ofList_inj] at same
  obtain ⟨signs, sizes⟩ :=
    eq_of_signed (startsWithDigit_digits _) (startsWithDigit_digits _) same
  have known := Script.Lexeme.natural?_digits m.natAbs
  rw [sizes, Script.Lexeme.natural?_digits, Option.some.injEq] at known
  have negative : m < 0 ↔ n < 0 := by simpa using signs
  omega

def isNumberPart (c : Char) : Bool := isNumeric c || ['n', 'a', 'i', 'f'].contains c

theorem script_text_parts {x : Float} {c : Char}
    (member : c ∈ (Layout.script.text x).toList) : isNumberPart c = true := by
  rcases Layout.script_text_special (x := x) with special | ⟨negative, m, p, found⟩
  · have parts : ∀ word, isSpecial word → word.toList.all isNumberPart = true := by
      rintro word (rfl | rfl | rfl) <;> decide
    exact List.all_eq_true.mp (parts _ special) c member
  · rw [Layout.script_text_finite found, String.toList_ofList] at member
    rw [isNumberPart, (Layout.fractional_size _ m p).numeric_signed negative c member, Bool.true_or]

theorem mem_integerText {n : Int} {c : Char} (member : c ∈ (integerText n).toList) :
    c = '-' ∨ Text.isDigit c = true := by
  rw [integerText_eq, String.toList_ofList, signed] at member
  split at member
  · exact (List.mem_cons.mp member).imp_right (isDigit_digits n.natAbs c)
  · exact .inr (isDigit_digits n.natAbs c member)

theorem integerText_parts {n : Int} {c : Char} (member : c ∈ (integerText n).toList) :
    isNumberPart c = true := by
  rcases mem_integerText member with rfl | digit
  · decide
  · rw [isNumberPart, isNumeric_of_isDigit digit, Bool.true_or]

theorem script_text_ne_nil (x : Float) : (Layout.script.text x).toList ≠ [] := by
  rcases Layout.script_text_special (x := x) with special | ⟨negative, m, p, found⟩
  · exact List.ne_nil_of_mem special.mem
  · rw [Layout.script_text_finite found, String.toList_ofList]
    exact signed_ne_nil (Layout.fractional_size _ m p).starts negative

theorem integerText_ne_nil (n : Int) : (integerText n).toList ≠ [] := by
  rw [integerText_eq, String.toList_ofList]
  exact signed_ne_nil (startsWithDigit_digits _) _

theorem script_text_ne_integerText (x : Float) (n : Int) :
    Layout.script.text x ≠ integerText n := by
  have outside : ∀ c ∈ ['.', 'e', 'n'], c ∉ (integerText n).toList := by
    intro c listed member
    rcases mem_integerText member with rfl | digit
    · revert listed
      decide
    · revert digit listed
      simp only [List.mem_cons, List.not_mem_nil, or_false]
      rintro (rfl | rfl | rfl) <;> decide
  intro same
  rcases Layout.script_text_special (x := x) with special | ⟨negative, m, p, found⟩
  · exact outside 'n' (by simp) (same ▸ special.mem)
  · have fractional := Layout.fractional_size .script m p
    rw [Layout.script_text_finite found] at same
    have spelled := congrArg String.toList same
    rw [String.toList_ofList] at spelled
    have inside : ∀ c ∈ Layout.script.size m p, c ∈ (integerText n).toList := by
      intro c member
      rw [← spelled, signed]
      split
      · exact List.mem_cons_of_mem _ member
      · exact member
    rcases fractional.marked with point | mark
    · exact outside '.' (by simp) (inside _ point)
    · exact outside 'e' (by simp) (inside _ mark)

end Stepwise.Number
