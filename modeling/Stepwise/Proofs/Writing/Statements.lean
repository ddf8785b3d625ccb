import Stepwise.Proofs.Parsing.Reading
import Stepwise.Proofs.Writing.Expressions
import Stepwise.Proofs.Writing.Phrases

/-!
Programs of one line that hold an expression.
-/

namespace Stepwise.Script

open Stepwise.Script.Parser

section Lines

variable {depth : Nat} {start middle finish : Cursor} {expr : Expr} {form : Form}

theorem testList_answers (read : (expressionAt depth .conditional).Answers start expr finish)
    (sole : finish.kind.isSymbol .comma = false) :
    (testList depth).Answers start expr finish := by
  simp only [testList, Answers.bind_iff read, Answers.at?_bind, sole, Bool.false_eq_true, if_false,
    Answers.pure_iff, and_self]

theorem expressionStatement_answers (line : Nat)
    (read : (expressionAt depth .conditional).Answers start expr finish)
    (newline : finish.kind = .newline) :
    (expressionStatement depth line).Answers start (.expr expr) finish := by
  have list := testList_answers read (by rw [newline]; rfl)
  simp only [expressionStatement, Answers.bind_iff list, Answers.at?_bind, newline,
    TokenKind.isSymbol, Bool.false_eq_true, if_false, Answers.peek_bind, augmentOp?,
    Answers.pure_iff, and_self]

def assigned? (depth : Nat) : Parser (Option Expr) := do
  if ← eat .assign then return .some (← testList depth)
  else return .none

/-- An expression, an equals sign and an expression that ends its line are an assignment to what the
first one stands for. -/
theorem assignment_answers {target : Target} {value : Expr} {last : Cursor} (line : Nat)
    (stands : expr.toTarget = .ok target)
    (read : (expressionAt (depth + 2) .conditional).Answers start expr middle)
    (assign : middle.kind = .symbol .assign)
    (readValue : (expressionAt (depth + 2) .conditional).Answers middle.next value last)
    (newline : last.kind = .newline) :
    (expressionStatement (depth + 2) line).Answers start (.assign [target] value) last := by
  have left := testList_answers read (by rw [assign]; rfl)
  have right := testList_answers readValue (by rw [newline]; rfl)
  have targets : ([expr].mapM (asTarget line)).Answers last [target] last := by
    have single : (asTarget line expr).Answers last target last := by
      simp only [asTarget, stands, Answers.pure_iff, and_self]
    simp only [List.mapM_cons, List.mapM_nil, Answers.bind_iff single, Answers.pure_bind,
      Answers.pure_iff, and_self]
  have ended : last.kind.isSymbol .assign = false := by rw [newline]; rfl
  have first : (assigned? (depth + 2)).Answers middle (some value) last := by
    simp only [assigned?, Answers.eat_found assign, if_true, Answers.bind_iff right,
      Answers.pure_iff, and_self]
  have behind : (assigned? (depth + 2)).Answers last none last := by
    simp only [assigned?, Answers.eat_absent ended, Bool.false_eq_true, if_false, Answers.pure_iff,
      and_self]
  have others := Answers.collect_some first (Answers.collect_none depth behind)
  have here : middle.kind.isSymbol .assign = true := by rw [assign]; rfl
  simp only [expressionStatement, Answers.bind_iff left, Answers.at?_bind, here, if_true]
  refine others.bind ?_
  exact targets.bind (Answers.pure_iff.mpr ⟨rfl, rfl⟩)

theorem smallForm_answers {around : Surroundings} (starts : start.kind.starts .conditional = true)
    (read : (expressionStatement depth start.line).Answers start form finish) :
    (smallForm depth around).Answers start form finish := by
  simp only [smallForm, Answers.line_bind, Answers.peek_bind]
  generalize start.kind = kind at starts
  unfold TokenKind.starts at starts
  split at starts <;> first | exact read | cases starts

theorem simpleLine_answers {around : Surroundings} (sameLine : Bool)
    (read : (smallForm depth around).Answers start form middle) (newline : middle.kind = .newline) :
    (simpleLine around (depth + 1) sameLine).Answers start [.mk start.line sameLine form]
      middle.next := by
  have last : middle.kind.isSymbol .semicolon = false := by rw [newline]; rfl
  simp only [simpleLine, Answers.line_bind, Answers.bind_iff read, Answers.eat_absent last,
    Bool.false_eq_true, if_false, Answers.eatIf_bind, newline, if_true, Answers.pure_iff, and_self]

theorem statementAt_answers (around : Surroundings) {statements : List Statement}
    (starts : start.kind.starts .conditional = true)
    (read : (simpleLine around depth false).Answers start statements finish) :
    (statementAt (depth + 1) around).Answers start statements finish := by
  simp only [statementAt, statementRule, Answers.line_bind, Answers.peek_bind]
  generalize start.kind = kind at starts
  unfold TokenKind.starts at starts
  split at starts <;> first | exact read | cases starts

def line? (depth : Nat) : Parser (Option (List Statement)) := do
  match ← peek with
  | .endOfInput => return .none
  | .indent => fail .unexpectedIndent
  | _ => return .some (← statementAt depth ⟨false, false⟩)

theorem program_answers (starts : start.kind.starts .conditional = true)
    (read : (expressionStatement depth start.line).Answers start form middle)
    (newline : middle.kind = .newline) (last : middle.next.kind = .endOfInput) :
    (program (depth + 2)).Answers start
      ⟨middle.functions, [.mk start.line false form]⟩ middle.next := by
  have line := statementAt_answers ⟨false, false⟩ starts
    (simpleLine_answers false (smallForm_answers starts read) newline)
  have first : (line? (depth + 2)).Answers start (some [.mk start.line false form])
      middle.next := by
    have read : (some <$> statementAt (depth + 2) ⟨false, false⟩).Answers start
        (some [.mk start.line false form]) middle.next := line.map
    simp only [line?, Answers.peek_bind]
    generalize start.kind = kind at starts
    unfold TokenKind.starts at starts
    split at starts <;> first | exact read | cases starts
  have ended : (line? (depth + 2)).Answers middle.next none middle.next := by
    simp only [line?, Answers.peek_bind, last, Answers.pure_iff, and_self]
  have lines := Answers.collect_some first (Answers.collect_none depth ended)
  refine Answers.bind lines ?_
  simp only [Answers.get_bind, Cursor.next_functions, List.flatten_cons, List.flatten_nil,
    List.append_nil, Answers.pure_iff, and_self]

end Lines

theorem Program.ofTokens?_of_answers {tokens : List Token} {program : Program} {finish : Cursor}
    (answers : (Script.program (depthFor tokens.length)).Answers ⟨tokens, 1, []⟩ program finish) :
    Program.ofTokens? tokens = some (.ok program) := by
  have forget : ((Script.program (depthFor tokens.length)).run' ⟨tokens, 1, []⟩).run =
      Except.map Prod.fst <$> ((Script.program (depthFor tokens.length)) ⟨tokens, 1, []⟩).run :=
    ExceptT.run_map _ _
  unfold Answers at answers
  rw [Program.ofTokens?, forget, answers]
  rfl

theorem Program.ofTokens?_line {tokens : List Token} {kind : TokenKind} {kinds : List TokenKind}
    {form : Form} (same : tokens.map Token.kind = kind :: kinds ++ [.newline, .endOfInput])
    (first : ∀ token ∈ tokens.head?, token.position.line = 1)
    (starts : kind.starts .conditional = true)
    (read : ∀ depth line start finish, start.Shows (kind :: kinds) finish →
      finish.kind = .newline → 16 * (kind :: kinds).length + 12 ≤ depth →
      (expressionStatement depth line).Answers start form finish) :
    Program.ofTokens? tokens = some (.ok ⟨[], [.mk 1 false form]⟩) := by
  obtain ⟨atNewline, shown, behind, functions⟩ :=
    Cursor.shows_of_tokens same (by simp) 1 []
  have newline : atNewline.kind = .newline ∧ atNewline.next.kind = .endOfInput := by
    rcases atNewline with ⟨_ | ⟨first, _ | ⟨second, _ | _⟩⟩, _, _⟩ <;>
      simp_all [Cursor.kind, Cursor.next]
  have line : (Cursor.mk tokens 1 []).line = 1 := by
    cases tokens with
    | nil => rfl
    | cons token tokens => exact first token rfl
  have count : tokens.length = kinds.length + 3 := by
    have lengths := congrArg List.length same
    simpa using lengths
  obtain ⟨depth, enough, room⟩ : ∃ depth, depthFor tokens.length = depth + 2 ∧
      16 * (kind :: kinds).length + 12 ≤ depth :=
    ⟨depthFor tokens.length - 2, by rw [depthFor]; omega,
      by simp only [depthFor, List.length_cons]; omega⟩
  have statement := read depth (Cursor.mk tokens 1 []).line _ atNewline shown newline.1 room
  have answers := program_answers (by rw [shown.kind]; exact starts) statement newline.1 newline.2
  rw [functions, line, ← enough] at answers
  exact Program.ofTokens?_of_answers answers

end Stepwise.Script
