import Mathlib.Data.List.TakeWhile
import Stepwise.Proofs.Lexing.Lexemes
import Stepwise.Proofs.Parsing.Layout

/-!
How much of a text decides the lexeme at its front.

A lexeme other than a string depends on the text up to the first blank or line feed.  A string depends
on what it is written as, and on nothing behind it.
-/

namespace Stepwise.Script

def inWord (c : Char) : Bool := !isLineBlank c && isInLine c

def unbroken (text : List Char) : List Char := text.takeWhile inWord

@[simp] theorem unbroken_nil : unbroken [] = [] := rfl

theorem unbroken_cons {c : Char} (inside : inWord c = true) (text : List Char) :
    unbroken (c :: text) = c :: unbroken text := by
  rw [unbroken, List.takeWhile_cons_of_pos inside, unbroken]

theorem unbroken_cons_of_not {c : Char} (outside : inWord c = false) (text : List Char) :
    unbroken (c :: text) = [] := by
  rw [unbroken, List.takeWhile_cons_of_neg (by simp [outside])]

theorem unbroken_append {front : List Char} (broken : ∃ c ∈ front, inWord c = false)
    (text : List Char) : unbroken (front ++ text) = unbroken front := by
  induction front with
  | nil =>
      obtain ⟨c, member, -⟩ := broken
      cases member
  | cons c front inductionHypothesis =>
      cases inside : inWord c with
      | false => rw [List.cons_append, unbroken_cons_of_not inside, unbroken_cons_of_not inside]
      | true =>
          obtain ⟨d, member, outside⟩ := broken
          rcases List.mem_cons.mp member with rfl | member
          · rw [inside] at outside
            cases outside
          · rw [List.cons_append, unbroken_cons inside, unbroken_cons inside,
              inductionHypothesis ⟨d, member, outside⟩]

/-- A test that blanks and line feeds fail is passed by characters of words only. -/
theorem inWord_of (test : Char → Bool)
    (between : [' ', '\t', '\r', '\x0c', '\n'].all (fun d => !test d) = true) {c : Char}
    (holds : test c = true) : inWord c = true := by
  have apart : ∀ d ∈ [' ', '\t', '\r', '\x0c', '\n'], c ≠ d := by
    intro d member same
    have lacks := List.all_eq_true.mp between d member
    rw [← same, holds] at lacks
    cases lacks
  simp only [List.mem_cons, forall_eq_or_imp, List.not_mem_nil, false_implies, implies_true,
    and_true] at apart
  simp [inWord, isLineBlank, isInLine, apart]

theorem inWord_of_isDigit {c : Char} : Text.isDigit c = true → inWord c = true :=
  inWord_of Text.isDigit (by decide)

theorem inWord_of_isNameStart {c : Char} : Text.isNameStart c = true → inWord c = true :=
  inWord_of Text.isNameStart (by decide)

theorem inWord_of_isNamePart {c : Char} : Text.isNamePart c = true → inWord c = true :=
  inWord_of Text.isNamePart (by decide)

theorem inWord_of_opensLexeme {c : Char} (opens : opensLexeme c = true) : inWord c = true := by
  simp only [opensLexeme, Bool.and_eq_true, bne_iff_ne] at opens
  simp [inWord, isInLine, opens]

def leads (test : Char → Bool) : List Char → Bool
  | c :: _ => test c
  | [] => false

theorem leads_unbroken (test : Char → Bool) (within : ∀ c, test c = true → inWord c = true)
    (text : List Char) : leads test (unbroken text) = leads test text := by
  cases text with
  | nil => rfl
  | cons c text =>
      cases inside : inWord c with
      | true =>
          rw [unbroken_cons inside]
          rfl
      | false =>
          have fails : test c = false := by
            rw [Bool.eq_false_iff]
            intro holds
            rw [within c holds] at inside
            cases inside
          rw [unbroken_cons_of_not inside]
          exact fails.symm

theorem takeWhile_unbroken (test : Char → Bool) (within : ∀ c, test c = true → inWord c = true)
    (text : List Char) :
    (unbroken text).takeWhile test = text.takeWhile test ∧
      (unbroken text).dropWhile test = unbroken (text.dropWhile test) := by
  induction text with
  | nil => exact ⟨rfl, rfl⟩
  | cons c text inductionHypothesis =>
      cases holds : test c with
      | true =>
          rw [unbroken_cons (within c holds), List.takeWhile_cons_of_pos holds,
            List.takeWhile_cons_of_pos holds, List.dropWhile_cons_of_pos holds,
            List.dropWhile_cons_of_pos holds, inductionHypothesis.1, inductionHypothesis.2]
          exact ⟨rfl, rfl⟩
      | false =>
          have fails : ¬ test c = true := by simp [holds]
          rw [List.takeWhile_cons_of_neg fails, List.dropWhile_cons_of_neg fails]
          cases inside : inWord c with
          | true =>
              rw [unbroken_cons inside, List.takeWhile_cons_of_neg fails,
                List.dropWhile_cons_of_neg fails]
              exact ⟨rfl, rfl⟩
          | false =>
              rw [unbroken_cons_of_not inside]
              exact ⟨rfl, rfl⟩

theorem isPrefixOf_unbroken {written : List Char} (inside : ∀ c ∈ written, inWord c = true)
    (text : List Char) : written.isPrefixOf (unbroken text) = written.isPrefixOf text := by
  induction written generalizing text with
  | nil => simp [List.isPrefixOf]
  | cons c written inductionHypothesis =>
      cases text with
      | nil => rfl
      | cons d text =>
          cases within : inWord d with
          | true =>
              rw [unbroken_cons within, List.isPrefixOf, List.isPrefixOf,
                inductionHypothesis fun e member => inside e (List.mem_cons_of_mem _ member)]
          | false =>
              have different : c ≠ d := by
                rintro rfl
                rw [inside c List.mem_cons_self] at within
                cases within
              rw [unbroken_cons_of_not within]
              simp [List.isPrefixOf, different]

namespace Lexeme

theorem decimalForm_of_mark {fractional : Bool} {c : Char} {rest : List Char}
    (mark : (c == 'e' || c == 'E') = true)
    (unsigned : leads (fun sign => sign == '+' || sign == '-') rest = false) :
    decimalForm fractional (c :: rest) = (decimalForm true rest).cons c := by
  have others : Text.isDigit c = false ∧ (c == '_') = false ∧ (c == '.') = false := by
    rcases Bool.or_eq_true_iff.mp mark with same | same <;> rw [beq_iff_eq.mp same] <;> decide
  rw [decimalForm.eq_def]
  simp only [others, Bool.false_eq_true, if_false, Bool.false_and, mark, if_true]
  cases rest with
  | nil => rfl
  | cons sign more => simp only [show (sign == '+' || sign == '-') = false from unsigned,
      Bool.false_eq_true, if_false]

/-- A number depends on the text up to the first blank, also for what must not follow it. -/
theorem decimalForm_unbroken (fractional : Bool) (text : List Char) :
    decimalForm fractional (unbroken text) = decimalForm fractional text ∧
      leads Text.isNameStart ((unbroken text).drop (decimalForm fractional text).length) =
        leads Text.isNameStart (text.drop (decimalForm fractional text).length) := by
  fun_induction decimalForm fractional text with
  | case1 => exact ⟨rfl, rfl⟩
  | case2 fractional c rest digit inductionHypothesis =>
      rw [unbroken_cons (inWord_of_isDigit digit), decimalForm.eq_def]
      simp only [digit, if_true, inductionHypothesis.1, true_and]
      exact inductionHypothesis.2
  | case3 fractional c rest digit line form inductionHypothesis =>
      rw [beq_iff_eq.mp line, unbroken_cons rfl, decimalForm.eq_def]
      simp only [show Text.isDigit '_' = false from rfl, Bool.false_eq_true, if_false,
        beq_self_eq_true, if_true, inductionHypothesis.1, form, true_and]
      exact inductionHypothesis.2
  | case4 fractional c rest digit line point inductionHypothesis =>
      have same := Bool.and_eq_true_iff.mp point
      rw [unbroken_cons (inWord_of (· == '.') (by decide) same.1), decimalForm.eq_def]
      simp only [digit, line, point, if_true, Bool.false_eq_true, if_false, inductionHypothesis.1,
        true_and]
      exact inductionHypothesis.2
  | case5 fractional c digit line point mark sign more signed inductionHypothesis =>
      have inside : inWord c = true := inWord_of (fun c => c == 'e' || c == 'E') (by decide) mark
      have inside' : inWord sign = true :=
        inWord_of (fun c => c == '+' || c == '-') (by decide) signed
      rw [unbroken_cons inside, unbroken_cons inside', decimalForm.eq_def]
      simp only [digit, line, point, mark, signed, if_true, Bool.false_eq_true, if_false,
        inductionHypothesis.1, true_and]
      exact inductionHypothesis.2
  | case6 fractional c digit line point mark sign more unsigned inductionHypothesis =>
      have inside : inWord c = true := inWord_of (fun c => c == 'e' || c == 'E') (by decide) mark
      have bare : leads (fun sign => sign == '+' || sign == '-') (unbroken (sign :: more)) = false := by
        rw [leads_unbroken _ fun _ => inWord_of (fun c => c == '+' || c == '-') (by decide)]
        exact Bool.eq_false_iff.mpr unsigned
      rw [unbroken_cons inside, decimalForm_of_mark mark bare, inductionHypothesis.1]
      exact ⟨rfl, inductionHypothesis.2⟩
  | case7 fractional c digit line point mark =>
      have inside : inWord c = true := inWord_of (fun c => c == 'e' || c == 'E') (by decide) mark
      rw [unbroken_cons inside, unbroken_nil, decimalForm_of_mark mark rfl]
      exact ⟨rfl, rfl⟩
  | case8 fractional c rest digit line point mark =>
      cases inside : inWord c with
      | true =>
          rw [unbroken_cons inside, decimalForm.eq_def]
          simp only [digit, line, point, mark, Bool.false_eq_true, if_false, true_and]
          rfl
      | false =>
          have ends := leads_unbroken Text.isNameStart (fun _ => inWord_of_isNameStart) (c :: rest)
          rw [unbroken_cons_of_not inside] at ends ⊢
          exact ⟨rfl, ends⟩

theorem readDecimal_eq (text : List Char) :
    readDecimal text =
      let form := decimalForm false text
      if leads Text.isNameStart (text.drop form.length) then .error .badDecimal
      else if form.fractional then
        match Number.decimal? form.text with
        | some decimal => .ok ⟨.float decimal.toFloat, max 1 form.length, Nat.le_max_left 1 _⟩
        | none => .error (.badFloat (String.ofList form.text))
      else
        match (Number.natural? 10 form.text).bind fun n => Number.bounded? n with
        | some value => .ok ⟨.int value, max 1 form.length, Nat.le_max_left 1 _⟩
        | none => .error (.bigInteger (String.ofList form.text)) := rfl

theorem readDecimal_unbroken (text : List Char) : readDecimal (unbroken text) = readDecimal text := by
  obtain ⟨form, joined⟩ := decimalForm_unbroken false text
  rw [readDecimal_eq, readDecimal_eq]
  simp only [form, joined]

theorem readBased_unbroken (base : Nat) (text : List Char) :
    readBased base (unbroken text) = readBased base text := by
  have within : ∀ c, (Text.isBasicLetter c || Text.isDigit c || c == '_') = true → inWord c = true :=
    fun _ => inWord_of (fun c => Text.isBasicLetter c || Text.isDigit c || c == '_') (by decide)
  unfold readBased
  simp only [(takeWhile_unbroken _ within text).1]

theorem inWord_of_baseOf? {mark : Char} (based : (baseOf? mark).isSome = true) : inWord mark = true :=
  inWord_of (fun mark => (baseOf? mark).isSome) (by decide) based

theorem readNumber_decimal {text : List Char}
    (unbased : ∀ mark rest, text = '0' :: mark :: rest → baseOf? mark = none) :
    readNumber text = readDecimal text := by
  unfold readNumber
  split
  · rename_i mark rest
    rw [unbased mark rest rfl]
  · rfl

theorem readNumber_unbroken (text : List Char) : readNumber (unbroken text) = readNumber text := by
  have decimal := readDecimal_unbroken text
  by_cases based : ∃ mark rest base, text = '0' :: mark :: rest ∧ baseOf? mark = some base
  · obtain ⟨mark, rest, base, rfl, selects⟩ := based
    have inside : inWord mark = true := inWord_of_baseOf? (by rw [selects]; rfl)
    rw [unbroken_cons rfl, unbroken_cons inside]
    simp only [readNumber, selects, readBased_unbroken]
  · have unbased : ∀ mark rest, text = '0' :: mark :: rest → baseOf? mark = none := by
      intro mark rest same
      rw [Option.eq_none_iff_forall_not_mem]
      intro base selects
      exact based ⟨mark, rest, base, same, selects⟩
    rw [readNumber_decimal unbased, ← decimal]
    refine readNumber_decimal fun mark rest same => ?_
    obtain ⟨others, whole⟩ := List.takeWhile_prefix (l := text) inWord
    refine unbased mark (rest ++ others) ?_
    rw [← whole]
    change unbroken text ++ others = _
    rw [same, List.cons_append, List.cons_append]

theorem readWord_eq (text : List Char) :
    readWord text =
      let word := text.takeWhile Text.isNamePart
      if leads (fun c => c == '\'' || c == '"') (text.dropWhile Text.isNamePart) then
        .error (.markedString (String.ofList word))
      else .ok ⟨ofWord (String.ofList word), max 1 word.length, Nat.le_max_left 1 _⟩ := rfl

theorem readWord_unbroken (text : List Char) : readWord (unbroken text) = readWord text := by
  obtain ⟨word, behind⟩ :=
    takeWhile_unbroken Text.isNamePart (fun _ => inWord_of_isNamePart) text
  have within : ∀ c, (c == '\'' || c == '"') = true → inWord c = true :=
    fun _ => inWord_of (fun c => c == '\'' || c == '"') (by decide)
  have quoted := leads_unbroken _ within (text.dropWhile Text.isNamePart)
  rw [readWord_eq, readWord_eq]
  simp only [word, behind, quoted]

theorem leading?_unbroken (text : List Char) :
    Symbol.leading? (unbroken text) = Symbol.leading? text := by
  have inside : ∀ symbol : Symbol, symbol.spelling.all inWord = true := by
    intro symbol
    cases symbol <;> rfl
  unfold Symbol.leading?
  congr 1
  funext symbol
  rw [isPrefixOf_unbroken (List.all_eq_true.mp (inside symbol))]

theorem read_eq (c : Char) (rest : List Char) :
    read c rest =
      if Text.isDigit c || (c == '.' && leads Text.isDigit rest) then readNumber (c :: rest)
      else if Text.isNameStart c then readWord (c :: rest)
      else if c == '\'' || c == '"' then readString c rest
      else
        match Symbol.leading? (c :: rest) with
        | some symbol => .ok ⟨.symbol symbol, symbol.spelling.length, symbol.spelling_length_pos⟩
        | none => .error (.strayCharacter c) := rfl

/-- A lexeme that is no string depends on the text up to the first blank or line feed. -/
theorem read_unbroken {c : Char} (inside : inWord c = true)
    (unquoted : (c == '\'' || c == '"') = false) (rest : List Char) :
    read c (unbroken rest) = read c rest := by
  have pointed := leads_unbroken Text.isDigit (fun _ => inWord_of_isDigit) rest
  rw [read_eq, read_eq, pointed, ← unbroken_cons inside, readNumber_unbroken, readWord_unbroken,
    leading?_unbroken]
  simp only [unquoted, Bool.false_eq_true, if_false]

theorem read_of_quote {quote : Char} (isQuote : (quote == '\'' || quote == '"') = true)
    (rest : List Char) : read quote rest = readString quote rest := by
  have plain : Text.isDigit quote = false ∧ Text.isNameStart quote = false ∧
      (quote == '.') = false := by
    rcases Bool.or_eq_true_iff.mp isQuote with same | same <;> rw [beq_iff_eq.mp same] <;> decide
  rw [read_eq]
  simp only [plain, isQuote, Bool.false_and, Bool.or_self, Bool.false_eq_true, if_false, if_true]

theorem isPrefixOf_take {quote : Char} {text : List Char} {n : Nat} (two : 2 ≤ n)
    (inside : n ≤ text.length) (other : List Char) :
    [quote, quote].isPrefixOf (text.take n ++ other) = [quote, quote].isPrefixOf text := by
  obtain ⟨n, rfl⟩ := Nat.exists_eq_add_of_le' two
  rcases text with _ | ⟨c, _ | ⟨d, text⟩⟩
  · simp at inside
  · simp at inside
  · simp [List.isPrefixOf]

theorem stringBody_take {quote : Char} {triple : Bool} {text content : List Char} {n : Nat}
    (body : stringBody quote triple text = some (content, n)) :
    n ≤ text.length ∧ (if triple then 3 else 1) ≤ n ∧
      ∀ other, stringBody quote triple (text.take n ++ other) = some (content, n) := by
  fun_induction stringBody quote triple text generalizing content n with
  | case1 => cases body
  | case2 c rest closes single =>
      cases body
      simp only [Bool.not_eq_true'] at single
      refine ⟨Nat.le_add_left 1 _, by simp [single], fun other => ?_⟩
      rw [List.take_succ_cons, List.take_zero, List.cons_append, stringBody.eq_def]
      simp only [closes, single, Bool.not_false, if_true]
  | case3 c rest closes long ends =>
      cases body
      obtain ⟨others, rfl⟩ := List.isPrefixOf_iff_prefix.mp ends
      simp only [Bool.not_eq_true', Bool.not_eq_false] at long
      refine ⟨Nat.le_add_left 3 _, by simp [long], fun other => ?_⟩
      have three : (c :: ([quote, quote] ++ others)).take 3 = [c, quote, quote] := rfl
      rw [three, List.cons_append, stringBody.eq_def]
      simp [closes, long, List.isPrefixOf]
  | case4 c rest closes long inside inductionHypothesis =>
      obtain ⟨⟨content, n⟩, found, same⟩ := Option.map_eq_some_iff.mp body
      cases same
      obtain ⟨fits, least, kept⟩ := inductionHypothesis found
      simp only [Bool.not_eq_true', Bool.not_eq_false] at long
      simp only [long, if_true] at least
      refine ⟨by simpa using fits, by simp only [long, if_true]; omega, fun other => ?_⟩
      -- the closing quotes come later, so that the next two characters are among those taken
      have next : [quote, quote].isPrefixOf (rest.take n ++ other) = [quote, quote].isPrefixOf rest :=
        isPrefixOf_take (by omega) fits other
      rw [List.take_succ_cons, List.cons_append, stringBody.eq_def]
      simp only [closes, if_true, long, Bool.not_true, Bool.false_eq_true, if_false, next, inside]
      rw [← long, kept]
      rfl
  | case5 => cases body
  | case6 => cases body
  | case7 c open_ visible escapes escaped more inductionHypothesis =>
      obtain ⟨⟨content, n⟩, found, same⟩ := Option.map_eq_some_iff.mp body
      cases same
      obtain ⟨fits, least, kept⟩ := inductionHypothesis found
      refine ⟨by simpa using fits, by omega, fun other => ?_⟩
      rw [List.take_succ_cons, List.take_succ_cons, List.cons_append, List.cons_append,
        stringBody.eq_def]
      simp only [open_, visible, escapes, if_true, Bool.false_eq_true, if_false, kept]
      rfl
  | case8 c rest open_ visible plain inductionHypothesis =>
      obtain ⟨⟨content, n⟩, found, same⟩ := Option.map_eq_some_iff.mp body
      cases same
      obtain ⟨fits, least, kept⟩ := inductionHypothesis found
      refine ⟨by simpa using fits, by omega, fun other => ?_⟩
      rw [List.take_succ_cons, List.cons_append, stringBody.eq_def]
      simp only [open_, visible, plain, Bool.false_eq_true, if_false, kept]
      rfl

def openingLength (quote : Char) (rest : List Char) : Nat :=
  if [quote, quote].isPrefixOf rest then 2 else 0

theorem readString_eq_ok_iff {quote : Char} {rest : List Char} {lexeme : Lexeme} :
    readString quote rest = .ok lexeme ↔
      ∃ content n, stringBody quote ([quote, quote].isPrefixOf rest)
          (rest.drop (openingLength quote rest)) = some (content, n) ∧
        lexeme.kind = .str (String.ofList content) ∧
        lexeme.length = 1 + openingLength quote rest + n := by
  simp only [readString, openingLength]
  cases stringBody quote ([quote, quote].isPrefixOf rest)
    (rest.drop (if [quote, quote].isPrefixOf rest then 2 else 0)) with
  | none => simp
  | some body =>
      obtain ⟨content, n⟩ := body
      obtain ⟨kind, length, positive⟩ := lexeme
      simp only [Except.ok.injEq, Lexeme.mk.injEq, Option.some.injEq, Prod.mk.injEq]
      constructor
      · rintro ⟨rfl, rfl⟩
        exact ⟨content, n, ⟨rfl, rfl⟩, rfl, rfl⟩
      · rintro ⟨_, _, ⟨rfl, rfl⟩, rfl, rfl⟩
        exact ⟨rfl, rfl⟩

theorem readString_behind {quote d : Char} {more rest : List Char} {lexeme : Lexeme}
    (read : readString quote (more ++ d :: rest) = .ok lexeme)
    (whole : lexeme.length = more.length + 1) (other : List Char) :
    readString quote (more ++ d :: other) = .ok lexeme := by
  obtain ⟨content, n, body, kind, length⟩ := readString_eq_ok_iff.mp read
  obtain ⟨-, least, kept⟩ := stringBody_take body
  have positive : 1 ≤ n := by
    split at least <;> omega
  -- the two characters behind the first quote are those of the string and the one behind it
  have opening : [quote, quote].isPrefixOf (more ++ d :: other) =
      [quote, quote].isPrefixOf (more ++ d :: rest) := by
    cases more with
    | nil =>
        simp only [List.length_nil] at whole
        omega
    | cons c more => cases more <;> simp [List.isPrefixOf]
  have same : openingLength quote (more ++ d :: other) = openingLength quote (more ++ d :: rest) := by
    rw [openingLength, openingLength, opening]
  have fits : openingLength quote (more ++ d :: rest) + n = more.length := by omega
  have taken : ∀ tail, ((more ++ d :: tail).drop (openingLength quote (more ++ d :: rest))) =
      ((more ++ d :: rest).drop (openingLength quote (more ++ d :: rest))).take n ++ d :: tail := by
    intro tail
    have short : openingLength quote (more ++ d :: rest) ≤ more.length := by omega
    have exact : (more.drop (openingLength quote (more ++ d :: rest))).length = n := by
      rw [List.length_drop]
      omega
    rw [List.drop_append_of_le_length short, List.drop_append_of_le_length short,
      List.take_left' exact]
  refine readString_eq_ok_iff.mpr ⟨content, n, ?_, kind, by rw [length, same]⟩
  rw [opening, same, taken, kept]

theorem decimalForm_length_le (fractional : Bool) (text : List Char) :
    (decimalForm fractional text).length ≤ text.length := by
  fun_induction decimalForm fractional text with
  | case1 => exact Nat.le_refl 0
  | case2 _ _ _ _ inductionHypothesis => exact Nat.succ_le_succ inductionHypothesis
  | case3 _ _ _ _ _ _ inductionHypothesis => exact Nat.succ_le_succ inductionHypothesis
  | case4 _ _ _ _ _ _ inductionHypothesis => exact Nat.succ_le_succ inductionHypothesis
  | case5 _ _ _ _ _ _ _ _ _ inductionHypothesis =>
      exact Nat.succ_le_succ (Nat.succ_le_succ inductionHypothesis)
  | case6 _ _ _ _ _ _ _ _ _ inductionHypothesis => exact Nat.succ_le_succ inductionHypothesis
  | case7 _ _ _ _ _ _ inductionHypothesis => exact Nat.succ_le_succ inductionHypothesis
  | case8 => exact Nat.zero_le _

theorem readBased_length_le {base : Nat} {text : List Char} {lexeme : Lexeme}
    (read : readBased base text = .ok lexeme) : lexeme.length ≤ text.length + 2 := by
  unfold readBased at read
  simp only at read
  split at read
  · cases read
    exact Nat.add_le_add_right (List.takeWhile_prefix _).length_le 2
  · cases read

theorem readDecimal_length_le {c : Char} {text : List Char} {lexeme : Lexeme}
    (read : readDecimal (c :: text) = .ok lexeme) : lexeme.length ≤ text.length + 1 := by
  have fits : max 1 (decimalForm false (c :: text)).length ≤ text.length + 1 :=
    Nat.max_le.mpr ⟨Nat.le_add_left 1 _, decimalForm_length_le false (c :: text)⟩
  rw [readDecimal_eq] at read
  rcases ok_of_ite_ok read with read | read
  · cases read
  · rcases ok_of_ite_ok read with read | read
    · split at read
      · cases read
        exact fits
      · cases read
    · split at read
      · cases read
        exact fits
      · cases read

theorem readNumber_length_le {c : Char} {text : List Char} {lexeme : Lexeme}
    (read : readNumber (c :: text) = .ok lexeme) : lexeme.length ≤ text.length + 1 := by
  unfold readNumber at read
  split at read
  · rename_i mark rest same
    cases same
    split at read
    · exact readBased_length_le read
    · exact readDecimal_length_le read
  · exact readDecimal_length_le read

theorem readWord_length_le {c : Char} {text : List Char} {lexeme : Lexeme}
    (read : readWord (c :: text) = .ok lexeme) : lexeme.length ≤ text.length + 1 := by
  rw [readWord_eq] at read
  rcases ok_of_ite_ok read with read | read
  · cases read
  · cases read
    exact Nat.max_le.mpr ⟨Nat.le_add_left 1 _, (List.takeWhile_prefix _).length_le⟩

theorem readString_length_le {quote : Char} {text : List Char} {lexeme : Lexeme}
    (read : readString quote text = .ok lexeme) : lexeme.length ≤ text.length + 1 := by
  obtain ⟨content, n, body, -, length⟩ := readString_eq_ok_iff.mp read
  have fits := (stringBody_take body).1
  have least := (stringBody_take body).2.1
  rw [List.length_drop] at fits
  rw [length]
  unfold openingLength at fits ⊢
  split at least <;> omega

theorem read_length_le {c : Char} {text : List Char} {lexeme : Lexeme}
    (found : read c text = .ok lexeme) : lexeme.length ≤ text.length + 1 := by
  rw [read_eq] at found
  rcases ok_of_ite_ok found with found | found
  · exact readNumber_length_le found
  · rcases ok_of_ite_ok found with found | found
    · exact readWord_length_le found
    · rcases ok_of_ite_ok found with found | found
      · exact readString_length_le found
      · split at found
        · rename_i symbol leading
          cases found
          have starts := List.find?_some leading
          exact (List.isPrefixOf_iff_prefix.mp starts).length_le
        · cases found

end Lexeme

theorem fronts_of_read {c : Char} {rest : List Char} {lexeme : Lexeme}
    (opens : opensLexeme c = true) (read : Lexeme.read c rest = .ok lexeme) :
    Fronts ((c :: rest).take lexeme.length) lexeme.kind ((c :: rest).drop lexeme.length) := by
  have fits := Lexeme.read_length_le read
  have positive := lexeme.length_pos
  rw [List.take_cons positive, List.drop_cons positive]
  refine .intro opens (by rwa [List.take_append_drop]) ?_
  rw [List.length_take]
  omega

/-- What is behind the line that a lexeme ends in does not matter for it. -/
theorem Fronts.behind {written line rest : List Char} {kind : TokenKind}
    (fronts : Fronts written kind (line ++ rest)) (feed : '\n' ∈ line) (other : List Char) :
    Fronts written kind (line ++ other) := by
  cases fronts with
  | @intro c more _ lexeme opens found whole =>
      refine .intro opens ?_ whole
      cases quoted : (c == '\'' || c == '"') with
      | true =>
          rw [Lexeme.read_of_quote quoted] at found ⊢
          cases line with
          | nil => cases feed
          | cons d line => exact Lexeme.readString_behind found whole (line ++ other)
      | false =>
          have inside := inWord_of_opensLexeme opens
          have broken : ∃ d ∈ more ++ line, inWord d = false :=
            ⟨'\n', List.mem_append_right more feed, rfl⟩
          rw [← Lexeme.read_unbroken inside quoted, ← List.append_assoc, unbroken_append broken]
            at found ⊢
          exact found

theorem Fronts.written_ne_nil {written rest : List Char} {kind : TokenKind}
    (fronts : Fronts written kind rest) : written ≠ [] := by
  cases fronts
  exact List.cons_ne_nil _ _

end Stepwise.Script
