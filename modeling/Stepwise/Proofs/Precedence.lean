import Stepwise.Proofs.Writing.Statements

/-!
The precedence of operators, as an inverse of the parser.

An expression written with as few parentheses as its operators allow is parsed as that expression.
-/

namespace Stepwise.Script

/-- An expression on a line of its own, with single spaces between its tokens. -/
def Expr.sourceLine (expr : Expr) : String := String.ofList (spelled expr.bare) ++ "\n"

def Program.ofExpr (expr : Expr) : Program := ⟨[], [.mk 1 false (.expr expr)]⟩

/-- What is read at a level starts with a token that may start it. -/
theorem Level.Reads.starts {level : Level} {tokens : List TokenKind} {expr : Expr}
    (reads : level.Reads tokens expr) :
    ∃ kind kinds, tokens = kind :: kinds ∧ kind.starts level = true := by
  have same : ((tokens ++ [TokenKind.newline]).map fun kind => Token.mk kind .start).map
      Token.kind = tokens ++ [.newline] := by
    simp [Function.comp_def]
  obtain ⟨finish, shown, behind, -⟩ := Cursor.shows_of_tokens same (by simp) 1 []
  have newline : finish.kind = .newline := by
    rcases finish with ⟨_ | ⟨first, _⟩, _, _⟩ <;> simp_all [Cursor.kind]
  have starts := expressionAt_starts
    (reads _ _ finish shown (by rw [newline]; rfl) (Nat.le_refl _))
  cases tokens with
  | nil =>
      cases shown
      rw [newline] at starts
      cases starts
  | cons kind kinds =>
      rw [shown.kind] at starts
      exact ⟨kind, kinds, rfl, starts⟩

theorem parse?_sourceLine {expr : Expr} (back : expr.IsReadBack) (phrase : Phrase expr.bare) :
    Program.parse? expr.sourceLine = some (.ok (.ofExpr expr)) := by
  have reads := back.reads.mono (Level.height_le_conditional _)
  obtain ⟨kind, kinds, form, starts⟩ := reads.starts
  obtain ⟨tokens, tokenized, same, first⟩ := tokenize_spelled ['\n']
    (form ▸ phrase.spelled) (.inr rfl) (form ▸ phrase.matched 0)
  have line : expr.sourceLine = String.ofList (spelled (kind :: kinds) ++ ['\n']) := by
    rw [Expr.sourceLine, form, String.ofList_append]
  rw [Program.parse?, line, tokenized]
  apply Program.ofTokens?_line same first starts
  intro depth line start finish shown newline enough
  apply expressionStatement_answers line (reads depth start finish (form ▸ shown) ?_ ?_) newline
  · rw [newline]
    rfl
  · rw [form]
    exact enough

/-- An expression that is written with the parentheses that the ladder of levels asks for, and with
parentheses around an attribute that is called, is parsed as that expression. -/
theorem parse?_written (expr : Expr) (writable : expr.isWritable = true) :
    Program.parse? expr.sourceLine = some (.ok (.ofExpr expr)) :=
  parse?_sourceLine (expr.isReadBack writable) (expr.phrase writable)

theorem parse?_written_grouped :
    let sum := Expr.binary .add (.int 1) (.unary .negate (.int 2))
    let expr := Expr.compare (.binary .power (.index (.name "x") sum) sum) [(.less, sum)]
    expr.isWritable = true ∧ expr.sourceLine = "x [ 1 + - 2 ] ** ( 1 + - 2 ) < 1 + - 2\n" ∧
      Program.parse? expr.sourceLine = some (.ok (.ofExpr expr)) :=
  ⟨by decide, by decide, parse?_written _ (by decide)⟩

/-- Without parentheses around it, an attribute that is called is written like a method call, and the
line is parsed as one. -/
theorem parse?_called_attribute :
    ∃ kinds, kinds = placed .trailer (Expr.attribute (.name "a") "b").rung
        (Expr.attribute (.name "a") "b").bare ++ [.symbol .leftParen, .symbol .rightParen] ∧
      spelled kinds = "a . b ( )".toList ∧
      Program.parse? (String.ofList (spelled kinds) ++ "\n") =
        some (.ok (.ofExpr (.method (.name "a") "b" []))) ∧
      Program.parse? (String.ofList (spelled kinds) ++ "\n") ≠
        some (.ok (.ofExpr (.call (.attribute (.name "a") "b") []))) := by
  have writable : (Expr.method (.name "a") "b" []).isWritable = true := by decide
  have parsed := parse?_sourceLine (Expr.isReadBack _ writable) (Expr.phrase _ writable)
  refine ⟨(Expr.method (.name "a") "b" []).bare, rfl, by decide, parsed, ?_⟩
  intro same
  have other := parsed.symm.trans same
  simp [Program.ofExpr] at other

end Stepwise.Script
