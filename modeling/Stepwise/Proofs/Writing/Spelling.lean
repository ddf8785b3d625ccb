import Stepwise.Proofs.Lexing.Streams
import Stepwise.Proofs.Writing.Written

/-!
Rows of tokens spelled with single spaces between them.
-/

namespace Stepwise.Script

def escapeSingle (c : Char) : List Char :=
  match c with
  | '\\' => ['\\', '\\']
  | '\'' => ['\\', '\'']
  | '\n' => ['\\', 'n']
  | c => [c]

def escapeIn (quote c : Char) : List Char :=
  if c = '\\' then ['\\', '\\']
  else if c = quote then ['\\', quote]
  else if c = '\n' then ['\\', 'n']
  else [c]

/-- How a token is written.  Floats and the marks of the layout are left out. -/
def TokenKind.spelling : TokenKind → List Char
  | .name word => word.toList
  | .int value => Number.digits value.toInt.toNat
  | .str content => '\'' :: (content.toList.flatMap escapeSingle ++ ['\''])
  | .keyword word => word.spelling.toList
  | .reserved word => word.toList
  | .symbol sign => sign.spelling
  | _ => []

def TokenKind.isSpelled : TokenKind → Bool
  | .name word => isName word
  | .int value => 0 ≤ value
  | .reserved word => reservedWords.contains word
  | .str _ | .keyword _ | .symbol _ => true
  | _ => false

theorem escapeSingle_eq : escapeSingle = escapeIn '\'' := by
  funext c
  unfold escapeSingle escapeIn
  split <;> simp_all

section

variable {quote : Char} (isQuote : quote = '\'' ∨ quote = '"')

include isQuote

/-- A character is written as an escape or, if it is neither a quote, a line feed nor a backslash, as
itself. -/
theorem escapeIn_cases (c : Char) :
    (∃ d, escapeIn quote c = ['\\', d] ∧ d ≠ '\n' ∧ Lexeme.unescape d = [c]) ∨
      (escapeIn quote c = [c] ∧ c ≠ quote ∧ c ≠ '\n' ∧ c ≠ '\\') := by
  unfold escapeIn
  by_cases slash : c = '\\'
  · subst slash
    exact .inl ⟨_, if_pos rfl, by decide, rfl⟩
  rw [if_neg slash]
  by_cases closes : c = quote
  · subst closes
    refine .inl ⟨c, if_pos rfl, ?_⟩
    rcases isQuote with rfl | rfl <;> exact ⟨by decide, rfl⟩
  rw [if_neg closes]
  by_cases feed : c = '\n'
  · subst feed
    exact .inl ⟨'n', if_pos rfl, by decide, rfl⟩
  · exact .inr ⟨if_neg feed, closes, feed, slash⟩

theorem feed_not_mem_escapeIn (c : Char) : '\n' ∉ escapeIn quote c := by
  rcases escapeIn_cases isQuote c with ⟨d, form, visible, -⟩ | ⟨form, -, visible, -⟩
  · simp [form, Ne.symm visible]
  · simp [form, Ne.symm visible]

theorem Fronts.escapedIn {rest : List Char} (content : String) (ends : Lexeme.breaks rest = true) :
    Fronts (quote :: (content.toList.flatMap (escapeIn quote) ++ [quote])) (.str content) rest := by
  have apart : quote ≠ '\\' := by rcases isQuote with rfl | rfl <;> decide
  have denotes : Lexeme.Denotes quote (content.toList.flatMap (escapeIn quote)) content.toList := by
    have each : ∀ c ∈ content.toList, Lexeme.Denotes quote (escapeIn quote c) [c] := by
      intro c _
      rcases escapeIn_cases isQuote c with ⟨d, form, -, back⟩ | ⟨form, inner, visible, bare⟩
      · rw [form, ← back]
        exact .escaped apart
      · rw [form]
        exact .plain inner visible bare
    simpa using Lexeme.Denotes.flatMap each
  have heads : ∀ c ∈ content.toList, ∃ d more, escapeIn quote c = d :: more ∧ quote ≠ d := by
    intro c _
    rcases escapeIn_cases isQuote c with ⟨d, form, -⟩ | ⟨form, inner, -⟩
    · exact ⟨_, _, form, apart⟩
    · exact ⟨_, _, form, Ne.symm inner⟩
  have single := Lexeme.single_of_heads (escapeIn quote) content.toList isQuote heads ends
  have fronts := Fronts.str (by simpa using isQuote) denotes single
  rw [String.ofList_toList] at fronts
  exact fronts

end

theorem Fronts.ofWord {rest : List Char} {text : String} (forms : formsWord text = true)
    (ends : Lexeme.breaks rest = true) : Fronts text.toList (Lexeme.ofWord text) rest := by
  unfold formsWord at forms
  split at forms
  · cases forms
  · rename_i first more form
    simp only [Bool.and_eq_true, List.all_eq_true] at forms
    have fronts := Fronts.word forms.1 forms.2 ends
    rwa [← form, String.ofList_toList] at fronts

theorem Keyword.formsWord_spelling (keyword : Keyword) : formsWord keyword.spelling = true := by
  cases keyword <;> decide

theorem Keyword.ofWord_spelling (keyword : Keyword) :
    Lexeme.ofWord keyword.spelling = .keyword keyword := by
  cases keyword <;> rfl

theorem formsWord_of_reserved :
    ∀ word ∈ reservedWords, formsWord word = true ∧ Keyword.ofSpelling? word = none := by
  decide

/-- Whether a text starts with a character that starts no token but a bracket, comma or colon. -/
def gap : List Char → Bool
  | [] => true
  | c :: _ => [' ', '\n', ',', ':', ')', ']', '\x7d'].contains c

theorem breaks_of_gap {rest : List Char} (free : gap rest = true) :
    Lexeme.breaks rest = true ∧ ∀ symbol : Symbol, symbol.grows rest = false := by
  cases rest with
  | nil => exact ⟨rfl, fun _ => rfl⟩
  | cons c rest =>
      simp only [gap, List.contains_eq_mem, List.mem_cons, List.not_mem_nil, or_false,
        decide_eq_true_eq] at free
      rcases free with rfl | rfl | rfl | rfl | rfl | rfl | rfl <;>
        exact ⟨rfl, fun symbol => by cases symbol <;> rfl⟩

theorem feed_not_mem_word {text : String} (forms : formsWord text = true) : '\n' ∉ text.toList := by
  unfold formsWord at forms
  split at forms
  · cases forms
  · rename_i first more form
    simp only [Bool.and_eq_true, List.all_eq_true] at forms
    rw [form]
    intro member
    rcases List.mem_cons.mp member with rfl | member
    · exact absurd forms.1 (by decide)
    · exact absurd (forms.2 _ member) (by decide)

/-- The texts that a token may be written as: a string stands in quotes of either kind.  Floats and the
marks of the layout are left out. -/
inductive TokenKind.WrittenAs : TokenKind → List Char → Prop where
  | name {word : String} : isName word = true → WrittenAs (.name word) word.toList
  | int {value : Int64} {n : Nat} : value.toInt = n → WrittenAs (.int value) (Number.digits n)
  | str {quote : Char} (content : String) : quote = '\'' ∨ quote = '"' →
      WrittenAs (.str content) (quote :: (content.toList.flatMap (escapeIn quote) ++ [quote]))
  | keyword (word : Keyword) : WrittenAs (.keyword word) word.spelling.toList
  | reserved {word : String} : word ∈ reservedWords → WrittenAs (.reserved word) word.toList
  | symbol (sign : Symbol) : WrittenAs (.symbol sign) sign.spelling

namespace TokenKind

variable {kind : TokenKind}

namespace WrittenAs

variable {written : List Char} (writtenAs : kind.WrittenAs written)

include writtenAs

theorem fronts {rest : List Char} (free : gap rest = true) : Fronts written kind rest := by
  obtain ⟨ends, whole⟩ := breaks_of_gap free
  cases writtenAs with
  | @name word named =>
      simp only [isName, Bool.and_eq_true, Option.isNone_iff_eq_none, Bool.not_eq_true',
        List.contains_eq_mem, decide_eq_false_iff_not] at named
      have same : Lexeme.ofWord word = .name word := by
        simp [Lexeme.ofWord, named.1.2, named.2]
      have fronts := Fronts.ofWord named.1.1 ends
      rw [same] at fronts
      exact fronts
  | int same => exact Fronts.int same ends
  | str content isQuote => exact .escapedIn isQuote content ends
  | keyword word =>
      have fronts := Fronts.ofWord word.formsWord_spelling ends
      rw [word.ofWord_spelling] at fronts
      exact fronts
  | @reserved word member =>
      obtain ⟨forms, plain⟩ := formsWord_of_reserved word member
      have same : Lexeme.ofWord word = .reserved word := by simp [Lexeme.ofWord, plain, member]
      have fronts := Fronts.ofWord forms ends
      rw [same] at fronts
      exact fronts
  | symbol sign => exact Fronts.symbol (whole sign)

theorem feed_not_mem : '\n' ∉ written := by
  cases writtenAs with
  | name named =>
      simp only [isName, Bool.and_eq_true] at named
      exact feed_not_mem_word named.1.1
  | @int value n same =>
      intro member
      exact absurd (Lexeme.isDigit_of_mem_digits member) (by decide)
  | @str quote content isQuote =>
      have outer : '\n' ≠ quote := by rcases isQuote with rfl | rfl <;> decide
      simp [feed_not_mem_escapeIn isQuote, outer]
  | keyword word => exact feed_not_mem_word word.formsWord_spelling
  | reserved member => exact feed_not_mem_word (formsWord_of_reserved _ member).1
  | symbol sign => cases sign <;> simp [Symbol.spelling]

end WrittenAs

theorem writtenAs_spelling (spelled : kind.isSpelled = true) : kind.WrittenAs kind.spelling := by
  cases kind with
  | name word => exact .name spelled
  | int value =>
      have positive : 0 ≤ value.toInt := Int.Nonneg.num value.toInt (of_decide_eq_true spelled)
      exact .int (Int.toNat_of_nonneg positive).symm
  | str content =>
      rw [spelling, escapeSingle_eq]
      exact .str content (.inl rfl)
  | keyword word => exact .keyword word
  | reserved word => exact .reserved (by simpa [isSpelled] using spelled)
  | symbol sign => exact .symbol sign
  | _ => cases spelled

theorem fronts {rest : List Char} (spelled : kind.isSpelled = true) (free : gap rest = true) :
    Fronts kind.spelling kind rest :=
  (writtenAs_spelling spelled).fronts free

theorem feed_not_mem_spelling (spelled : kind.isSpelled = true) : '\n' ∉ kind.spelling :=
  (writtenAs_spelling spelled).feed_not_mem

end TokenKind

/-- The spellings of tokens with single spaces between them. -/
def spelled (kinds : List TokenKind) : List Char := [' '].intercalate (kinds.map TokenKind.spelling)

theorem intercalate_cons (first : List Char) (texts : List (List Char)) :
    [' '].intercalate (first :: texts) = first ++ texts.flatMap fun text => ' ' :: text := by
  induction texts generalizing first with
  | nil => simp
  | cons second texts inductionHypothesis =>
      have joined : [' '].intercalate (first :: second :: texts) =
          first ++ ' ' :: [' '].intercalate (second :: texts) := by
        simp [List.intercalate]
      rw [joined, inductionHypothesis]
      simp

section

variable {row : List (TokenKind × List Char)} {rest : List Char}

theorem gap_flatMap (free : gap rest = true) :
    gap (row.flatMap (fun part => ' ' :: part.2) ++ rest) = true := by
  cases row with
  | nil => exact free
  | cons => rfl

theorem spells_flatMap (each : ∀ part ∈ row, part.1.WrittenAs part.2) (free : gap rest = true) :
    Spells (row.flatMap (fun part => ' ' :: part.2) ++ rest) (row.map Prod.fst) rest := by
  induction row with
  | nil => exact .done
  | cons part row inductionHypothesis =>
      obtain ⟨writtenAs, others⟩ := List.forall_mem_cons.mp each
      rw [List.flatMap_cons, List.cons_append, List.cons_append, List.append_assoc]
      exact .space (.lexeme writtenAs.feed_not_mem (writtenAs.fronts (gap_flatMap free))
        (inductionHypothesis others))

/-- Tokens whose brackets match are read back from a text of each, with single spaces between them. -/
theorem tokenize_writtenAs (filled : row ≠ []) (each : ∀ part ∈ row, part.1.WrittenAs part.2)
    (ends : rest = [] ∨ rest = ['\n']) (brackets : depthAfter? 0 (row.map Prod.fst) = some 0) :
    ∃ tokens, tokenize (String.ofList ([' '].intercalate (row.map Prod.snd) ++ rest)) = .ok tokens ∧
      tokens.map Token.kind = row.map Prod.fst ++ [.newline, .endOfInput] ∧
      ∀ token ∈ tokens.head?, token.position.line = 1 := by
  obtain ⟨part, row, rfl⟩ := List.exists_cons_of_ne_nil filled
  obtain ⟨writtenAs, others⟩ := List.forall_mem_cons.mp each
  have free : gap rest = true := by rcases ends with rfl | rfl <;> rfl
  rw [List.map_cons, intercalate_cons, List.flatMap_map, List.append_assoc]
  exact tokenize_spells writtenAs.feed_not_mem (writtenAs.fronts (gap_flatMap free))
    (spells_flatMap others free) ends brackets

end

theorem tokenize_spelled {kind : TokenKind} {kinds : List TokenKind} (rest : List Char)
    (each : ∀ part ∈ kind :: kinds, part.isSpelled = true) (ends : rest = [] ∨ rest = ['\n'])
    (brackets : depthAfter? 0 (kind :: kinds) = some 0) :
    ∃ tokens, tokenize (String.ofList (spelled (kind :: kinds) ++ rest)) = .ok tokens ∧
      tokens.map Token.kind = kind :: kinds ++ [.newline, .endOfInput] ∧
      ∀ token ∈ tokens.head?, token.position.line = 1 := by
  let row := (kind :: kinds).map fun part => (part, part.spelling)
  have kindsOf : row.map Prod.fst = kind :: kinds := by simp [row, Function.comp_def]
  have textsOf : row.map Prod.snd = (kind :: kinds).map TokenKind.spelling := by
    simp [row, Function.comp_def]
  have filled : row ≠ [] := List.cons_ne_nil _ _
  have written : ∀ part ∈ row, part.1.WrittenAs part.2 := by
    intro part member
    obtain ⟨source, inside, rfl⟩ := List.mem_map.mp member
    exact TokenKind.writtenAs_spelling (each source inside)
  have read := tokenize_writtenAs filled written ends (kindsOf ▸ brackets)
  rw [kindsOf, textsOf] at read
  exact read

/-- Every row of names, words, integers, strings and symbols whose brackets match is read back from a
text in which the tokens stand with single spaces between them. -/
theorem tokenize_row {row : List (TokenKind × List Char)} (filled : row ≠ [])
    (each : ∀ part ∈ row, part.1.WrittenAs part.2)
    (brackets : depthAfter? 0 (row.map Prod.fst) = some 0) :
    ∃ tokens, tokenize (String.ofList ([' '].intercalate (row.map Prod.snd))) = .ok tokens ∧
      tokens.map Token.kind = row.map Prod.fst ++ [.newline, .endOfInput] := by
  obtain ⟨tokens, read, kinds, -⟩ := tokenize_writtenAs filled each (.inl rfl) brackets
  rw [List.append_nil] at read
  exact ⟨tokens, read, kinds⟩

/-- Tokens with signs that start with one another, words that start alike, and a string with a quote, a
backslash and a line feed, written in both kinds of quotes. -/
def crowdedRow : List (TokenKind × List Char) :=
  [(.symbol .doubleStarAssign, ['*', '*', '=']), (.symbol .star, ['*']),
    (.symbol .doubleStar, ['*', '*']), (.symbol .leftBracket, ['[']), (.name "is1", "is1".toList),
    (.keyword .isWord, "is".toList), (.reserved "as", "as".toList),
    (.int 9223372036854775807, Number.digits 9223372036854775807), (.symbol .dot, ['.']),
    (.str "'\\\n", '\'' :: ("'\\\n".toList.flatMap (escapeIn '\'') ++ ['\''])),
    (.str "'\\\n", '"' :: ("'\\\n".toList.flatMap (escapeIn '"') ++ ['"'])),
    (.symbol .rightBracket, [']'])]

theorem tokenize_row_crowded :
    crowdedRow ≠ [] ∧ (∀ part ∈ crowdedRow, part.1.WrittenAs part.2) ∧
      depthAfter? 0 (crowdedRow.map Prod.fst) = some 0 ∧
      String.ofList ([' '].intercalate (crowdedRow.map Prod.snd)) =
        "**= * ** [ is1 is as 9223372036854775807 . '\\'\\\\\\n' \"'\\\\\\n\" ]" ∧
      ∃ tokens, tokenize (String.ofList ([' '].intercalate (crowdedRow.map Prod.snd))) = .ok tokens ∧
        tokens.map Token.kind = crowdedRow.map Prod.fst ++ [.newline, .endOfInput] := by
  have each : ∀ part ∈ crowdedRow, part.1.WrittenAs part.2 := by
    simp only [crowdedRow, List.forall_mem_cons, List.not_mem_nil, false_implies, implies_true,
      and_true]
    exact ⟨.symbol _, .symbol _, .symbol _, .symbol _, .name (by decide), .keyword .isWord,
      .reserved (by decide), .int (by decide), .symbol _, .str _ (.inl rfl), .str _ (.inr rfl),
      .symbol _⟩
  have filled : crowdedRow ≠ [] := List.cons_ne_nil _ _
  have brackets : depthAfter? 0 (crowdedRow.map Prod.fst) = some 0 := rfl
  exact ⟨filled, each, brackets, by decide, tokenize_row filled each brackets⟩

end Stepwise.Script
