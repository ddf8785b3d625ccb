import Mathlib.Tactic.IntervalCases
import Stepwise.Proofs.Lexing.Streams
import Stepwise.Value.Render

/-!
Quoted texts as string literals.

A quoted text is one string token.  Every character reads back as itself, apart from control
characters that are quoted by their code: a literal knows no codes and keeps what is written.
-/

namespace Stepwise.Text

def isCoded (c : Char) : Bool :=
  (c.toNat < 32 || c.toNat == 127) && c != '\n' && c != '\r' && c != '\t'

/-- What the quoted form of a character stands for in a literal. -/
def readBack (c : Char) : List Char :=
  if isCoded c then ['\\', 'x', Nat.digitChar (c.toNat / 16), Nat.digitChar (c.toNat % 16)] else [c]

/-- A text reads back as itself if none of its characters is quoted by its code. -/
theorem flatMap_readBack_eq_iff {text : List Char} :
    text.flatMap readBack = text ↔ ∀ c ∈ text, isCoded c = false := by
  have length_le : ∀ text : List Char, text.length ≤ (text.flatMap readBack).length := by
    intro text
    induction text with
    | nil => simp
    | cons c rest inductionHypothesis =>
        have filled : 1 ≤ (readBack c).length := by
          unfold readBack
          split <;> simp
        simp only [List.flatMap_cons, List.length_append, List.length_cons]
        omega
  constructor
  · intro same
    induction text with
    | nil => simp
    | cons c rest inductionHypothesis =>
        rw [List.flatMap_cons] at same
        by_cases coded : isCoded c = true
        · -- a code takes more characters than the one it stands for
          have lengths := congrArg List.length same
          have longer := length_le rest
          simp only [readBack, coded, if_true, List.length_append, List.length_cons,
            List.length_nil] at lengths
          omega
        · simp only [readBack, coded, Bool.false_eq_true, if_false, List.singleton_append,
            List.cons.injEq, true_and] at same
          simpa [coded] using inductionHypothesis same
  · intro plain
    induction text with
    | nil => rfl
    | cons c rest inductionHypothesis =>
        simp only [List.mem_cons, forall_eq_or_imp] at plain
        simp [readBack, plain.1, inductionHypothesis plain.2]

theorem quoteFor_isQuote (text : List Char) :
    quoteFor text = '\'' ∨ quoteFor text = '"' := by
  unfold quoteFor
  split <;> simp

theorem digitChar_plain {digit : Nat} (small : digit < 16) :
    ['\'', '"', '\n', '\\'].contains (Nat.digitChar digit) = false := by
  interval_cases digit <;> rfl

theorem escapeFor_cases {quote : Char} (isQuote : quote = '\'' ∨ quote = '"') (c : Char) :
    (∃ d, escapeFor quote c = ['\\', d] ∧ d ≠ '\n' ∧ Script.Lexeme.unescape d = [c] ∧
      isCoded c = false) ∨
    (∃ high < 16, ∃ low < 16,
      escapeFor quote c = ['\\', 'x', Nat.digitChar high, Nat.digitChar low] ∧
        readBack c = ['\\', 'x', Nat.digitChar high, Nat.digitChar low]) ∨
    (escapeFor quote c = [c] ∧ c ≠ quote ∧ c ≠ '\n' ∧ c ≠ '\\' ∧ isCoded c = false) := by
  by_cases special : c ∈ ['\\', '\n', '\r', '\t']
  · simp only [List.mem_cons, List.not_mem_nil, or_false] at special
    left
    rcases special with rfl | rfl | rfl | rfl <;> exact ⟨_, rfl, by decide, rfl, rfl⟩
  simp only [List.mem_cons, List.not_mem_nil, or_false, not_or] at special
  obtain ⟨bare, feed, carriage, tab⟩ := special
  have form : escapeFor quote c =
      if c == quote then ['\\', c]
      else if c.toNat < 32 || c.toNat == 127 then
        ['\\', 'x', Nat.digitChar (c.toNat / 16), Nat.digitChar (c.toNat % 16)]
      else [c] := by
    unfold escapeFor
    split <;> simp_all
  rw [form]
  by_cases same : c = quote
  · left
    subst same
    rw [if_pos (beq_self_eq_true c)]
    rcases isQuote with rfl | rfl <;> exact ⟨_, rfl, by decide, rfl, rfl⟩
  · rw [if_neg (by simpa using same)]
    right
    by_cases coded : (c.toNat < 32 || c.toNat == 127) = true
    · left
      have code : isCoded c = true := by simp [isCoded, coded, feed, carriage, tab]
      have small : c.toNat ≤ 127 := by
        simp only [Bool.or_eq_true, decide_eq_true_eq, beq_iff_eq] at coded
        omega
      refine ⟨c.toNat / 16, by omega, c.toNat % 16, by omega, if_pos coded, ?_⟩
      simp [readBack, code]
    · right
      exact ⟨if_neg coded, same, feed, bare, by simp [isCoded, coded]⟩

theorem feed_not_mem_quoted (text : List Char) : '\n' ∉ quoted text := by
  have isQuote := quoteFor_isQuote text
  have apart : quoteFor text ≠ '\n' := by rcases isQuote with same | same <;> rw [same] <;> decide
  have inside : ∀ c ∈ text, '\n' ∉ escapeFor (quoteFor text) c := by
    intro c _
    rcases escapeFor_cases isQuote c with
      ⟨d, form, visible, -⟩ | ⟨high, high_lt, low, low_lt, form, -⟩ | ⟨form, -, visible, -⟩
    · simp [form, Ne.symm visible]
    · have first := digitChar_plain high_lt
      have second := digitChar_plain low_lt
      simp only [List.contains_eq_mem, List.mem_cons, List.not_mem_nil, or_false,
        decide_eq_false_iff_not, not_or] at first second
      simp [form, Ne.symm first.2.2.1, Ne.symm second.2.2.1]
    · simp [form, Ne.symm visible]
  simp only [quoted, List.cons_append, List.mem_cons, List.mem_append, List.mem_flatMap,
    List.not_mem_nil, or_false, not_or, not_exists, not_and]
  exact ⟨apart.symm, inside, apart.symm⟩

end Stepwise.Text

namespace Stepwise.Script

open Text

theorem Lexeme.denotes_escapeFor {quote : Char} (isQuote : quote = '\'' ∨ quote = '"') (c : Char) :
    Lexeme.Denotes quote (escapeFor quote c) (readBack c) := by
  have apart : quote ≠ '\\' := by rcases isQuote with rfl | rfl <;> decide
  rcases escapeFor_cases isQuote c with
    ⟨d, form, -, back, plain⟩ | ⟨high, high_lt, low, low_lt, form, back⟩ |
      ⟨form, inner, visible, bare, plain⟩
  · rw [form, readBack, plain, if_neg Bool.false_ne_true, ← back]
    exact Denotes.escaped apart
  · have digit : ∀ {value : Nat}, value < 16 →
        Denotes quote [Nat.digitChar value] [Nat.digitChar value] := by
      intro value small
      have outside := digitChar_plain small
      simp only [List.contains_eq_mem, List.mem_cons, List.not_mem_nil, or_false,
        decide_eq_false_iff_not, not_or] at outside
      apply Denotes.plain
      · rcases isQuote with rfl | rfl
        · exact outside.1
        · exact outside.2.1
      · exact outside.2.2.1
      · exact outside.2.2.2
    rw [form, back]
    exact (Denotes.escaped (c := 'x') apart).append ((digit high_lt).append (digit low_lt))
  · rw [form, readBack, plain, if_neg Bool.false_ne_true]
    exact Denotes.plain inner visible bare

/-- A quoted text is a string token, whatever word or symbol follows. -/
theorem Fronts.quoted (text rest : List Char) (ends : Lexeme.breaks rest = true) :
    Fronts (quoted text) (.str (String.ofList (text.flatMap readBack))) rest := by
  have isQuote := quoteFor_isQuote text
  have single := Lexeme.single_of_heads (escapeFor (quoteFor text)) text isQuote
    (by
      intro c _
      have apart : quoteFor text ≠ '\\' := by rcases isQuote with same | same <;> rw [same] <;> decide
      -- the first character is an escape, or it is not the quote
      rcases escapeFor_cases isQuote c with
        ⟨d, form, -⟩ | ⟨high, -, low, -, form, -⟩ | ⟨form, inner, -⟩
      · exact ⟨_, _, form, apart⟩
      · exact ⟨_, _, form, apart⟩
      · exact ⟨_, _, form, Ne.symm inner⟩) ends
  exact Fronts.str (by rcases isQuote with same | same <;> simp [same])
    (Lexeme.Denotes.flatMap fun c _ => Lexeme.denotes_escapeFor isQuote c) single

/-- The tokens of a string literal that stands alone in a source and takes so many characters. -/
def literalTokens (content : String) (width : Nat) : List Token :=
  [⟨.str content, .start⟩, ⟨.newline, ⟨1, width⟩⟩, ⟨.endOfInput, ⟨1, width⟩⟩]

theorem tokenize_quoted (content : String) :
    tokenize (strText content) = .ok (literalTokens
      (String.ofList (content.toList.flatMap readBack)) (strText content).length) := by
  have fronts := Fronts.quoted content.toList [] rfl
  have last : Position.start.past (quoted content.toList) = ⟨1, (strText content).length⟩ := by
    rw [Position.past_of_visible (feed_not_mem_quoted _)]
    simp [Position.start, strText]
  have ended : scan ⟨[], 0, true⟩ false ⟨1, (strText content).length⟩ [] =
      .ok [⟨.newline, ⟨1, (strText content).length⟩⟩,
        ⟨.endOfInput, ⟨1, (strText content).length⟩⟩] := by
    rw [scan]
    rfl
  have whole := tokenize_of_fronts fronts
  have accepted : LineState.initial.accept Position.start.line
      (.str (String.ofList (content.toList.flatMap readBack))) = .ok ⟨[], 0, true⟩ := rfl
  rw [scan_fronts fronts accepted, last, ended, List.append_nil] at whole
  exact whole

/-- A quoted text is read as one string token.  Its content is the text itself exactly if the text has
none of the control characters that are quoted by their code; each of those stands for the four
characters that its code is written with. -/
theorem tokenize_strText (content : String) :
    tokenize (strText content) = .ok (literalTokens
        (String.ofList (content.toList.flatMap readBack)) (strText content).length) ∧
      (String.ofList (content.toList.flatMap readBack) = content ↔
        ∀ c ∈ content.toList, isCoded c = false) := by
  refine ⟨tokenize_quoted content, ?_⟩
  rw [← flatMap_readBack_eq_iff]
  constructor
  · intro same
    simpa only [String.toList_ofList] using congrArg String.toList same
  · intro same
    rw [same, String.ofList_toList]

/-- A control character that is quoted by its code does not read back as itself. -/
theorem tokenize_strText_control :
    ¬ ∃ tokens, tokenize (strText "\x01") = .ok tokens ∧
      tokens.map Token.kind = [.str "\x01", .newline, .endOfInput] := by
  rintro ⟨tokens, tokenized, kinds⟩
  rw [tokenize_quoted] at tokenized
  cases tokenized
  simp only [literalTokens, List.map_cons, List.cons.injEq, TokenKind.str.injEq] at kinds
  exact absurd kinds.1 (by decide)

end Stepwise.Script
