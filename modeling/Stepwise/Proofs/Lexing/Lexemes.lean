import Mathlib.Data.List.Basic
import Mathlib.Tactic.IntervalCases
import Stepwise.Number.Layout
import Stepwise.Script.Lexer

/-!
Lexemes that are read back from their spelling.

`Fronts` says that a text has a lexeme at its front and stops right behind it.  What may follow a
lexeme is said character by character: a word or number ends before a break, a string in single
quotes before anything but another quote, and a symbol before a character that cannot extend it.
-/

namespace Stepwise.Script

namespace Lexeme

/-- What is written between quotes stands for the content, whatever comes behind it. -/
def Denotes (quote : Char) (written content : List Char) : Prop :=
  ∀ rest, stringBody quote false (written ++ rest) =
    (stringBody quote false rest).map fun body => (content ++ body.1, body.2 + written.length)

namespace Denotes

variable {quote : Char}

theorem nil : Denotes quote [] [] := by
  intro rest
  simp

theorem append {written written' content content' : List Char}
    (first : Denotes quote written content) (second : Denotes quote written' content') :
    Denotes quote (written ++ written') (content ++ content') := by
  intro rest
  rw [List.append_assoc, first, second, Option.map_map]
  congr 1
  funext body
  simp only [Function.comp_apply, List.append_assoc, List.length_append, Prod.mk.injEq, true_and]
  omega

theorem flatMap {write read : Char → List Char} {text : List Char}
    (each : ∀ c ∈ text, Denotes quote (write c) (read c)) :
    Denotes quote (text.flatMap write) (text.flatMap read) := by
  induction text with
  | nil => exact nil
  | cons c rest inductionHypothesis =>
      simp only [List.flatMap_cons]
      apply append
      · exact each c (by simp)
      · exact inductionHypothesis fun d member => each d (by simp [member])

theorem plain {c : Char} (inner : c ≠ quote) (visible : c ≠ '\n') (bare : c ≠ '\\') :
    Denotes quote [c] [c] := by
  intro rest
  rw [List.singleton_append, stringBody.eq_def]
  simp [inner, visible, bare]

theorem escaped {c : Char} (apart : quote ≠ '\\') : Denotes quote ['\\', c] (unescape c) := by
  intro rest
  rw [stringBody.eq_def]
  simp [apart.symm]

end Denotes

theorem readString_of_denotes {quote : Char} {written content rest : List Char}
    (denotes : Denotes quote written content)
    (single : [quote, quote].isPrefixOf (written ++ quote :: rest) = false) :
    ∃ lexeme, readString quote (written ++ quote :: rest) = .ok lexeme ∧
      lexeme.kind = .str (String.ofList content) ∧ lexeme.length = written.length + 2 := by
  have body : stringBody quote false (written ++ quote :: rest) =
      some (content, written.length + 1) := by
    rw [denotes, stringBody.eq_def]
    simp [Nat.add_comm]
  unfold readString
  simp only [single, Bool.false_eq_true, if_false, List.drop_zero, body]
  exact ⟨_, rfl, rfl, by simp; omega⟩

def breaks : List Char → Bool
  | [] => true
  | c :: _ => !Text.isNamePart c && c != '.' && c != '\'' && c != '"'

/-- A written text whose characters do not start with the quote opens no long string. -/
theorem single_of_heads {quote : Char} (write : Char → List Char) (text : List Char)
    {rest : List Char} (isQuote : quote = '\'' ∨ quote = '"')
    (heads : ∀ c ∈ text, ∃ d more, write c = d :: more ∧ quote ≠ d) (ends : breaks rest = true) :
    [quote, quote].isPrefixOf (text.flatMap write ++ quote :: rest) = false := by
  cases text with
  | nil =>
      cases rest with
      | nil => simp [List.isPrefixOf]
      | cons d rest =>
          simp only [breaks, Bool.and_eq_true, bne_iff_ne, ne_eq] at ends
          have behind : quote ≠ d := by
            rintro rfl
            rcases isQuote with rfl | rfl
            · exact ends.1.2 rfl
            · exact ends.2 rfl
          simp [List.isPrefixOf, behind]
  | cons c text =>
      obtain ⟨d, more, form, inner⟩ := heads c (by simp)
      simp [form, List.isPrefixOf, inner]

theorem readWord_of_breaks {word rest : List Char} (inside : ∀ c ∈ word, Text.isNamePart c = true)
    (ends : breaks rest = true) :
    ∃ lexeme, readWord (word ++ rest) = .ok lexeme ∧
      lexeme.kind = ofWord (String.ofList word) ∧ lexeme.length = max 1 word.length := by
  have outside : rest.takeWhile Text.isNamePart = [] ∧ rest.dropWhile Text.isNamePart = rest := by
    cases rest with
    | nil => simp
    | cons c rest =>
        simp only [breaks, Bool.and_eq_true, Bool.not_eq_true'] at ends
        simp [ends.1.1.1]
  have taken : (word ++ rest).takeWhile Text.isNamePart = word := by
    rw [List.takeWhile_append_of_pos inside, outside.1, List.append_nil]
  have dropped : (word ++ rest).dropWhile Text.isNamePart = rest := by
    rw [List.dropWhile_append_of_pos inside, outside.2]
  unfold readWord
  simp only [taken, dropped]
  cases rest with
  | nil => exact ⟨_, rfl, rfl, rfl⟩
  | cons c rest =>
      simp only [breaks, Bool.and_eq_true, bne_iff_ne, ne_eq] at ends
      simp [ends.1.2, ends.2]

theorem digitValue?_digitChar {digit : Nat} (small : digit < 10) :
    Number.digitValue? (Nat.digitChar digit) = some digit := by
  interval_cases digit <;> rfl

theorem isDigit_of_mem_digits {n : Nat} {c : Char} (member : c ∈ Number.digits n) :
    Text.isDigit c = true := by
  have digit := Nat.isDigit_of_mem_toDigits (by decide) (by decide) member
  simpa [Text.isDigit, Char.isDigit, Char.le_def] using digit

theorem continueNatural?_append (base value : Nat) (front rest : List Char) :
    Number.continueNatural? base value (front ++ rest) =
      (Number.continueNatural? base value front).bind fun value =>
        Number.continueNatural? base value rest := by
  induction front generalizing value with
  | nil => rfl
  | cons c front inductionHypothesis =>
      simp only [List.cons_append, Number.continueNatural?]
      split
      · split
        · exact inductionHypothesis _
        · rfl
      · rfl

theorem continueNatural?_digits (n : Nat) :
    Number.continueNatural? 10 0 (Number.digits n) = some n := by
  induction n using Nat.strongRecOn with
  | ind n inductionHypothesis =>
      by_cases small : n < 10
      · simp [Number.digits, Nat.toDigits_of_lt_base small, Number.continueNatural?,
          digitValue?_digitChar small, small]
      · have last : n % 10 < 10 := Nat.mod_lt _ (by decide)
        have split : Number.digits n = Number.digits (n / 10) ++ [Nat.digitChar (n % 10)] :=
          Nat.toDigits_of_base_le (by decide) (by omega)
        rw [split, continueNatural?_append, inductionHypothesis (n / 10) (by omega)]
        simp [Number.continueNatural?, digitValue?_digitChar last, last]
        omega

theorem natural?_digits (n : Nat) : Number.natural? 10 (Number.digits n) = some n := by
  unfold Number.natural?
  rw [if_neg, continueNatural?_digits]
  simp [Number.digits, Nat.toDigits_ne_nil]

theorem isDigit_eq_true_iff {c : Char} : Text.isDigit c = true ↔ 48 ≤ c.toNat ∧ c.toNat ≤ 57 := by
  simp only [Text.isDigit, Bool.and_eq_true, decide_eq_true_eq, Char.le_def, UInt32.le_iff_toNat_le]
  exact Iff.rfl

theorem isNamePart_of_isDigit {c : Char} (digit : Text.isDigit c = true) :
    Text.isNamePart c = true := by
  have bounds := isDigit_eq_true_iff.mp digit
  have small : c.toNat < 128 := by omega
  simp [Text.isNamePart, Text.isNumeral, small, digit]

theorem isDigit_of_isNameStart {c : Char} (starts : Text.isNameStart c = true) :
    Text.isDigit c = false := by
  by_contra digit
  have bounds := isDigit_eq_true_iff.mp (Bool.of_not_eq_false digit)
  have small : c.toNat < 128 := by omega
  have line : c ≠ '_' := by
    rintro rfl
    revert bounds
    decide
  simp only [Text.isNameStart, Text.isLetter, small, if_true, Bool.or_eq_true, beq_iff_eq, line,
    or_false, Text.isBasicLetter, Bool.and_eq_true, decide_eq_true_eq, Char.le_def,
    UInt32.le_iff_toNat_le] at starts
  rcases starts with lower | upper
  · exact absurd (Nat.le_trans lower.1 bounds.2) (by decide)
  · exact absurd (Nat.le_trans upper.1 bounds.2) (by decide)

theorem decimalForm_of_breaks {digits rest : List Char}
    (inside : ∀ c ∈ digits, Text.isDigit c = true) (ends : breaks rest = true) :
    decimalForm false (digits ++ rest) = ⟨digits, false, digits.length⟩ := by
  induction digits with
  | nil =>
      cases rest with
      | nil => rfl
      | cons c rest =>
          simp only [breaks, Bool.and_eq_true, Bool.not_eq_true', bne_iff_ne, ne_eq] at ends
          have outside := ends.1.1.1
          have digit : Text.isDigit c = false :=
            Bool.eq_false_iff.mpr fun digit => by simp [isNamePart_of_isDigit digit] at outside
          have apart : c ≠ '_' ∧ c ≠ 'e' ∧ c ≠ 'E' := by
            refine ⟨?_, ?_, ?_⟩ <;> rintro rfl <;> revert outside <;> decide
          rw [List.nil_append, decimalForm.eq_def]
          simp [digit, apart, ends.1.1.2]
  | cons c digits inductionHypothesis =>
      rw [List.cons_append, decimalForm.eq_def]
      simp only [inside c (by simp), if_true]
      rw [inductionHypothesis fun d member => inside d (by simp [member])]
      rfl

theorem readNumber_of_breaks {n : Nat} {value : Int64} {rest : List Char}
    (denotes : value.toInt = n) (ends : breaks rest = true) :
    ∃ lexeme, readNumber (Number.digits n ++ rest) = .ok lexeme ∧
      lexeme.kind = .int value ∧ lexeme.length = (Number.digits n).length := by
  have decimal : ∃ lexeme, readDecimal (Number.digits n ++ rest) = .ok lexeme ∧
      lexeme.kind = .int value ∧ lexeme.length = (Number.digits n).length := by
    have form := decimalForm_of_breaks (fun c => isDigit_of_mem_digits (n := n)) ends
    have filled : 1 ≤ (Number.digits n).length := Nat.length_toDigits_pos
    unfold readDecimal
    simp only [form, List.drop_left', natural?_digits, Option.bind_some, Bool.false_eq_true, if_false]
    rw [if_neg]
    · rw [Number.bounded?_eq_some_iff.mpr denotes]
      exact ⟨_, rfl, rfl, Nat.max_eq_right filled⟩
    · cases rest with
      | nil => simp
      | cons c rest =>
          simp only [breaks, Bool.and_eq_true, Bool.not_eq_true'] at ends
          have outside := ends.1.1.1
          simp only [Text.isNamePart, Bool.or_eq_false_iff] at outside
          simp [Text.isNameStart, outside]
  -- a zero and a letter would select another base, but only digits and breaks follow
  have unbased : ∀ mark more, Number.digits n ++ rest = '0' :: mark :: more →
      baseOf? mark = none := by
    intro mark more same
    have kind : Text.isDigit mark = true ∨ Text.isNamePart mark = false := by
      rcases written : Number.digits n with _ | ⟨digit, _ | ⟨second, others⟩⟩
      · exact absurd written Nat.toDigits_ne_nil
      · simp only [written, List.singleton_append, List.cons.injEq] at same
        rw [same.2] at ends
        simp only [breaks, Bool.and_eq_true, Bool.not_eq_true'] at ends
        exact .inr ends.1.1.1
      · simp only [written, List.cons_append, List.cons.injEq] at same
        refine .inl (isDigit_of_mem_digits (n := n) ?_)
        simp [written, same.2.1]
    have apart : ∀ letter ∈ ['x', 'X', 'o', 'O', 'b', 'B'], mark ≠ letter := by
      intro letter member same
      have neither : ['x', 'X', 'o', 'O', 'b', 'B'].all
          (fun letter => !Text.isDigit letter && Text.isNamePart letter) = true := by decide
      have letterKind := List.all_eq_true.mp neither letter member
      rw [Bool.and_eq_true, Bool.not_eq_true', ← same] at letterKind
      rcases kind with digit | ends
      · exact Bool.false_ne_true (letterKind.1.symm.trans digit)
      · exact Bool.false_ne_true (ends.symm.trans letterKind.2)
    simp only [List.mem_cons, forall_eq_or_imp] at apart
    simp [baseOf?, apart]
  unfold readNumber
  split
  · rename_i mark more same
    rw [unbased mark more same]
    rw [same] at decimal
    exact decimal
  · exact decimal

end Lexeme

/-- Whether a text makes the symbol that stands before it a longer one, or a number of it. -/
def Symbol.grows (symbol : Symbol) : List Char → Bool
  | [] => false
  | c :: _ =>
      all.any (fun longer => (symbol.spelling ++ [c]).isPrefixOf longer.spelling) ||
        (symbol == .dot && Text.isDigit c)

theorem Symbol.not_prefix_of_before :
    ∀ symbol ∈ all, ∀ other ∈ all.takeWhile (· != symbol),
      other.spelling.isPrefixOf symbol.spelling = false := by
  decide

/-- A symbol is the longest one at the front of its text if nothing behind it makes it longer. -/
theorem Symbol.leading?_spelling {symbol : Symbol} {rest : List Char}
    (whole : symbol.grows rest = false) :
    Symbol.leading? (symbol.spelling ++ rest) = some symbol := by
  have member : symbol ∈ all := by cases symbol <;> decide
  have split : all = all.takeWhile (· != symbol) ++
      symbol :: (all.dropWhile (· != symbol)).tail := by cases symbol <;> rfl
  rw [leading?, List.find?_eq_some_iff_append]
  refine ⟨List.isPrefixOf_iff_prefix.mpr (List.prefix_append _ _), _, _, split, ?_⟩
  intro other before
  rw [Bool.not_eq_true', Bool.eq_false_iff]
  intro leads
  have apart : ¬ other.spelling <+: symbol.spelling := by
    rw [← List.isPrefixOf_iff_prefix, not_prefix_of_before symbol member other before]
    simp
  rcases List.prefix_or_prefix_of_prefix (List.isPrefixOf_iff_prefix.mp leads)
    (List.prefix_append symbol.spelling rest) with shorter | ⟨more, form⟩
  · exact apart shorter
  · cases more with
    | nil =>
        rw [List.append_nil] at form
        exact apart (form ▸ List.prefix_refl _)
    | cons c more =>
        -- the other symbol goes on with the first character of the rest
        have behind := List.isPrefixOf_iff_prefix.mp leads
        rw [← form, List.prefix_append_right_inj] at behind
        obtain ⟨last, rfl⟩ := behind
        have listed : other ∈ all := by cases other <;> decide
        have longer : (symbol.spelling ++ [c]).isPrefixOf other.spelling = true := by
          rw [List.isPrefixOf_iff_prefix, ← form]
          simp
        simp only [grows, List.cons_append, Bool.or_eq_false_iff, List.any_eq_false] at whole
        exact absurd longer (by simpa using whole.1 other listed)

theorem Symbol.opens_spelling (symbol : Symbol) :
    ∃ c more, symbol.spelling = c :: more ∧ Text.isDigit c = false ∧ Text.isNameStart c = false ∧
      ['\'', '"', ' ', '\t', '\r', '\x0c', '#', '\\', '\n'].contains c = false ∧
      (c = '.' → symbol = .dot) := by
  cases symbol <;> exact ⟨_, _, rfl, by decide⟩

/-- Whether a character starts a lexeme wherever it stands between lexemes. -/
def opensLexeme (c : Char) : Bool := !isLineBlank c && c != '#' && c != '\\' && c != '\n'

/-- A text is a lexeme of a kind, which is read up to the rest. -/
inductive Fronts : List Char → TokenKind → List Char → Prop where
  | intro {c : Char} {more rest : List Char} {lexeme : Lexeme} : opensLexeme c = true →
      Lexeme.read c (more ++ rest) = .ok lexeme → lexeme.length = more.length + 1 →
      Fronts (c :: more) lexeme.kind rest

namespace Fronts

variable {written rest : List Char} {kind : TokenKind}

theorem of_read {c : Char} {more : List Char} (opens : opensLexeme c = true)
    (read : ∃ lexeme, Lexeme.read c (more ++ rest) = .ok lexeme ∧ lexeme.kind = kind ∧
      lexeme.length = more.length + 1) : Fronts (c :: more) kind rest := by
  obtain ⟨lexeme, found, rfl, whole⟩ := read
  exact .intro opens found whole

/-- A character that has a property which the blanks and marks between lexemes lack. -/
theorem opens_of (test : Char → Bool) {c : Char} (holds : test c = true)
    (between : [' ', '\t', '\r', '\x0c', '#', '\\', '\n'].all (fun d => !test d) = true) :
    opensLexeme c = true := by
  have apart : ∀ d ∈ [' ', '\t', '\r', '\x0c', '#', '\\', '\n'], c ≠ d := by
    intro d member same
    have lacks := List.all_eq_true.mp between d member
    rw [← same, holds] at lacks
    cases lacks
  simp only [List.mem_cons, forall_eq_or_imp, List.not_mem_nil, false_implies, implies_true,
    and_true] at apart
  simp [opensLexeme, isLineBlank, apart]

theorem word {c : Char} {more : List Char} (starts : Text.isNameStart c = true)
    (inside : ∀ d ∈ more, Text.isNamePart d = true) (ends : Lexeme.breaks rest = true) :
    Fronts (c :: more) (Lexeme.ofWord (String.ofList (c :: more))) rest := by
  apply of_read
  · exact opens_of Text.isNameStart starts (by decide)
  · have part : Text.isNamePart c = true := by
      simp only [Text.isNameStart, Bool.or_eq_true] at starts
      rcases starts with letter | line <;> simp [Text.isNamePart, *]
    have parts : ∀ d ∈ c :: more, Text.isNamePart d = true := by simpa [part] using inside
    obtain ⟨lexeme, found, kind, whole⟩ := Lexeme.readWord_of_breaks parts ends
    have pointless : (c == '.') = false := by
      apply beq_eq_false_iff_ne.mpr
      rintro rfl
      revert starts
      decide
    refine ⟨lexeme, ?_, kind, ?_⟩
    · unfold Lexeme.read
      simp only [Lexeme.isDigit_of_isNameStart starts, pointless, starts, Bool.false_and, Bool.or_self,
        Bool.false_eq_true, if_false, if_true]
      exact found
    · simpa using whole

theorem int {n : Nat} {value : Int64} (denotes : value.toInt = n)
    (ends : Lexeme.breaks rest = true) : Fronts (Number.digits n) (.int value) rest := by
  obtain ⟨c, more, written⟩ := List.exists_cons_of_ne_nil (Nat.toDigits_ne_nil (n := n) (b := 10))
  obtain ⟨lexeme, found, kind, whole⟩ := Lexeme.readNumber_of_breaks denotes ends
  have digit : Text.isDigit c = true :=
    Lexeme.isDigit_of_mem_digits (n := n) (by simp [Number.digits, written])
  simp only [Number.digits, written] at found whole ⊢
  apply of_read
  · exact opens_of Text.isDigit digit (by decide)
  · refine ⟨lexeme, ?_, kind, whole⟩
    unfold Lexeme.read
    simp only [digit, Bool.true_or, if_true]
    exact found

theorem str {quote : Char} {content : List Char} (isQuote : (quote == '\'' || quote == '"') = true)
    (denotes : Lexeme.Denotes quote written content)
    (single : [quote, quote].isPrefixOf (written ++ quote :: rest) = false) :
    Fronts (quote :: (written ++ [quote])) (.str (String.ofList content)) rest := by
  obtain ⟨lexeme, found, kind, whole⟩ := Lexeme.readString_of_denotes denotes single
  apply of_read
  · exact opens_of (fun c => c == '\'' || c == '"') isQuote (by decide)
  · refine ⟨lexeme, ?_, kind, by simp [whole]⟩
    have plain : Text.isDigit quote = false ∧ Text.isNameStart quote = false ∧
        (quote == '.') = false := by
      rcases Bool.or_eq_true_iff.mp isQuote with same | same <;> rw [beq_iff_eq.mp same] <;> decide
    unfold Lexeme.read
    simp only [plain, isQuote, Bool.false_and, Bool.or_self, Bool.false_eq_true, if_false, if_true,
      List.append_assoc, List.singleton_append]
    exact found

theorem symbol {symbol : Symbol} (whole : symbol.grows rest = false) :
    Fronts symbol.spelling (.symbol symbol) rest := by
  obtain ⟨c, more, written, digit, word, apart, pointed⟩ := symbol.opens_spelling
  have leads := Symbol.leading?_spelling whole
  simp only [List.contains_eq_mem, List.mem_cons, List.not_mem_nil, or_false,
    decide_eq_false_iff_not, not_or] at apart
  rw [written] at leads ⊢
  apply of_read
  · simp [opensLexeme, isLineBlank, apart]
  · have found : Lexeme.read c (more ++ rest) =
        .ok ⟨.symbol symbol, symbol.spelling.length, symbol.spelling_length_pos⟩ := by
      unfold Lexeme.read
      rw [if_neg, if_neg (by simp [word]), if_neg (by simp [apart]), ← List.cons_append, leads]
      -- a point is a symbol unless a digit follows
      by_cases point : c = '.'
      · obtain rfl := pointed point
        cases written
        cases rest with
        | nil => decide
        | cons next rest =>
            simp only [Symbol.grows, Bool.or_eq_false_iff] at whole
            simpa [digit] using whole.2
      · simp [digit, point]
    exact ⟨_, found, rfl, by simp [written]⟩

end Fronts

end Stepwise.Script
