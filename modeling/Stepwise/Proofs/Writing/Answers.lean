import Stepwise.Proofs.Parsing.Basic

/-!
Readers that answer.

`Answers` says that a reader gives an answer and where it leaves the cursor.  What a reader put
together from others answers is found by running it step by step: each `_bind` lemma takes one step
of a reader whose next token is known.
-/

namespace Stepwise.Script

/-- The cursor stands at tokens of these kinds, and is at `finish` once they are read. -/
def Cursor.Shows : Cursor → List TokenKind → Cursor → Prop
  | start, [], finish => start = finish
  | start, kind :: kinds, finish => start.kind = kind ∧ start.next.Shows kinds finish

namespace Cursor

@[simp] theorem shows_nil {start finish : Cursor} : start.Shows [] finish ↔ start = finish := Iff.rfl

@[simp] theorem shows_cons {start finish : Cursor} {kind : TokenKind} {kinds : List TokenKind} :
    start.Shows (kind :: kinds) finish ↔ start.kind = kind ∧ start.next.Shows kinds finish :=
  Iff.rfl

theorem shows_append {start finish : Cursor} {front kinds : List TokenKind} :
    start.Shows (front ++ kinds) finish ↔
      ∃ middle, start.Shows front middle ∧ middle.Shows kinds finish := by
  induction front generalizing start with
  | nil => simp
  | cons kind front inductionHypothesis => simp [inductionHypothesis, and_assoc]

theorem Shows.kind {start finish : Cursor} {kind : TokenKind} {kinds : List TokenKind}
    (shown : start.Shows (kind :: kinds) finish) : start.kind = kind := shown.1

theorem secondKind_eq (cursor : Cursor) : cursor.secondKind = cursor.next.kind := by
  rcases cursor with ⟨tokens, lastLine, functions⟩
  match tokens with
  | [] => rfl
  | [_] => rfl
  | _ :: _ :: _ => rfl

theorem shows_of_tokens {tokens : List Token} {kinds behind : List TokenKind}
    (same : tokens.map Token.kind = kinds ++ behind) (more : behind ≠ [])
    (lastLine : Nat) (functions : List Definition) :
    ∃ finish, (Cursor.mk tokens lastLine functions).Shows kinds finish ∧
      finish.tokens.map Token.kind = behind ∧ finish.functions = functions := by
  induction kinds generalizing tokens lastLine with
  | nil => exact ⟨_, rfl, same, rfl⟩
  | cons kind kinds inductionHypothesis =>
      cases tokens with
      | nil => simp at same
      | cons token rest =>
          simp only [List.map_cons, List.cons_append, List.cons.injEq] at same
          obtain ⟨first, same⟩ := same
          have filled : rest ≠ [] := by
            rintro rfl
            simp [more] at same
          obtain ⟨finish, shown, last⟩ := inductionHypothesis same
            ((Cursor.mk (token :: rest) lastLine functions).next.lastLine)
          refine ⟨finish, ⟨first, ?_⟩, last⟩
          have moved : (Cursor.mk (token :: rest) lastLine functions).next =
              ⟨rest, (Cursor.mk (token :: rest) lastLine functions).next.lastLine, functions⟩ := by
            simp [next, filled]
          rw [moved]
          exact shown

end Cursor

namespace Parser

variable {α β : Type} {parser : Parser α} {next : α → Parser β} {start middle finish : Cursor}
  {found : α} {answer : β}

/-- The reader answers and leaves the cursor at `finish`. -/
def Answers (parser : Parser α) (start : Cursor) (answer : α) (finish : Cursor) : Prop :=
  (parser start).run = some (.ok (answer, finish))

namespace Answers

theorem unique {other : α} {otherFinish : Cursor} (answers : parser.Answers start found finish)
    (otherwise : parser.Answers start other otherFinish) : found = other ∧ finish = otherFinish := by
  unfold Answers at answers otherwise
  rw [answers] at otherwise
  cases otherwise
  exact ⟨rfl, rfl⟩

@[simp] theorem pure_iff {value : α} :
    (Pure.pure value : Parser α).Answers start found finish ↔ found = value ∧ finish = start := by
  constructor
  · intro answers
    cases answers
    exact ⟨rfl, rfl⟩
  · rintro ⟨rfl, rfl⟩
    rfl

theorem fail_iff {problem : SyntaxProblem} :
    (Parser.fail problem : Parser α).Answers start found finish ↔ False := by
  constructor
  · intro answers
    obtain ⟨cursor, middle, -, thrown⟩ := Parser.bind_ended answers
    cases thrown
  · exact False.elim

theorem bind_iff (first : parser.Answers start found middle) :
    (parser >>= next).Answers start answer finish ↔ (next found).Answers middle answer finish := by
  constructor
  · intro answers
    obtain ⟨other, otherMiddle, read, rest⟩ := Parser.bind_ended answers
    obtain ⟨rfl, rfl⟩ := first.unique read
    exact rest
  · intro rest
    unfold Answers at first rest ⊢
    have steps : (parser >>= next) start = parser start >>= fun read => next read.1 read.2 := rfl
    rw [steps, ExceptT.run_bind, first]
    exact rest

theorem bind (first : parser.Answers start found middle)
    (rest : (next found).Answers middle answer finish) :
    (parser >>= next).Answers start answer finish :=
  (bind_iff first).mpr rest

theorem map {change : α → β} (answers : parser.Answers start found finish) :
    (change <$> parser).Answers start (change found) finish := by
  rw [map_eq_pure_bind]
  exact answers.bind (pure_iff.mpr ⟨rfl, rfl⟩)

@[simp] theorem pure_bind {value : α} :
    (Pure.pure value >>= next).Answers start answer finish ↔
      (next value).Answers start answer finish :=
  bind_iff (pure_iff.mpr ⟨rfl, rfl⟩)

theorem of_get : (MonadState.get : Parser Cursor).Answers start start start := rfl

theorem of_peek : peek.Answers start start.kind start := rfl

theorem of_line : line.Answers start start.line start := rfl

theorem of_advance : advance.Answers start () start.next := rfl

theorem of_at? (symbol : Symbol) :
    (at? symbol).Answers start (start.kind.isSymbol symbol) start := rfl

theorem of_atWord? (keyword : Keyword) :
    (atWord? keyword).Answers start (start.kind.isKeyword keyword) start := rfl

@[simp] theorem get_bind {next : Cursor → Parser β} :
    ((MonadState.get : Parser Cursor) >>= next).Answers start answer finish ↔
      (next start).Answers start answer finish :=
  bind_iff of_get

@[simp] theorem peek_bind {next : TokenKind → Parser β} :
    (peek >>= next).Answers start answer finish ↔ (next start.kind).Answers start answer finish :=
  bind_iff of_peek

@[simp] theorem line_bind {next : Nat → Parser β} :
    (line >>= next).Answers start answer finish ↔ (next start.line).Answers start answer finish :=
  bind_iff of_line

@[simp] theorem advance_bind {next : Unit → Parser β} :
    (advance >>= next).Answers start answer finish ↔ (next ()).Answers start.next answer finish :=
  bind_iff of_advance

@[simp] theorem at?_bind {symbol : Symbol} {next : Bool → Parser β} :
    (at? symbol >>= next).Answers start answer finish ↔
      (next (start.kind.isSymbol symbol)).Answers start answer finish :=
  bind_iff (of_at? symbol)

@[simp] theorem atWord?_bind {keyword : Keyword} {next : Bool → Parser β} :
    (atWord? keyword >>= next).Answers start answer finish ↔
      (next (start.kind.isKeyword keyword)).Answers start answer finish :=
  bind_iff (of_atWord? keyword)

theorem eatIf_bind {test : TokenKind → Bool} {next : Bool → Parser β} :
    (eatIf test >>= next).Answers start answer finish ↔
      (next (test start.kind)).Answers (if test start.kind then start.next else start)
        answer finish := by
  apply bind_iff
  simp only [eatIf, peek_bind]
  split
  · rename_i holds
    simp only [holds, advance_bind, pure_iff, and_self]
  · rename_i fails
    simp only [fails, pure_iff, and_self]

@[simp] theorem eat_bind {symbol : Symbol} {next : Bool → Parser β} :
    (eat symbol >>= next).Answers start answer finish ↔
      (next (start.kind.isSymbol symbol)).Answers
        (if start.kind.isSymbol symbol then start.next else start) answer finish :=
  eatIf_bind

@[simp] theorem eatWord_bind {keyword : Keyword} {next : Bool → Parser β} :
    (eatWord keyword >>= next).Answers start answer finish ↔
      (next (start.kind.isKeyword keyword)).Answers
        (if start.kind.isKeyword keyword then start.next else start) answer finish :=
  eatIf_bind

theorem eat_found {symbol : Symbol} {next : Bool → Parser β}
    (here : start.kind = .symbol symbol) :
    (eat symbol >>= next).Answers start answer finish ↔
      (next true).Answers start.next answer finish := by
  simp [here, TokenKind.isSymbol]

theorem eat_absent {symbol : Symbol} {next : Bool → Parser β}
    (elsewhere : start.kind.isSymbol symbol = false) :
    (eat symbol >>= next).Answers start answer finish ↔
      (next false).Answers start answer finish := by
  simp [elsewhere]

theorem eatWord_found {keyword : Keyword} {next : Bool → Parser β}
    (here : start.kind = .keyword keyword) :
    (eatWord keyword >>= next).Answers start answer finish ↔
      (next true).Answers start.next answer finish := by
  simp [here, TokenKind.isKeyword]

theorem eatWord_absent {keyword : Keyword} {next : Bool → Parser β}
    (elsewhere : start.kind.isKeyword keyword = false) :
    (eatWord keyword >>= next).Answers start answer finish ↔
      (next false).Answers start answer finish := by
  simp [elsewhere]

@[simp] theorem expect_bind {symbol : Symbol} {what : String} {next : Unit → Parser β}
    (expected : start.kind = .symbol symbol) :
    (expect symbol what >>= next).Answers start answer finish ↔
      (next ()).Answers start.next answer finish := by
  apply bind_iff
  simp [expect, expected, TokenKind.isSymbol]

theorem expectName_bind {what name : String} {next : String → Parser β}
    (expected : start.kind = .name name) :
    (expectName what >>= next).Answers start answer finish ↔
      (next name).Answers start.next answer finish := by
  apply bind_iff
  simp only [expectName, peek_bind, expected, advance_bind, pure_iff, and_self]

theorem collect_none {step : Parser (Option α)} (depth : Nat)
    (ended : step.Answers start none finish) :
    (collect (depth + 1) step).Answers start [] finish := by
  simp only [collect, bind_iff ended, pure_iff, and_self]

theorem collect_some {step : Parser (Option α)} {depth : Nat} {rest : List α}
    (first : step.Answers start (some found) middle)
    (others : (collect depth step).Answers middle rest finish) :
    (collect (depth + 1) step).Answers start (found :: rest) finish := by
  simp only [collect, bind_iff first, bind_iff others, pure_iff, and_self]

end Answers

end Parser

end Stepwise.Script
