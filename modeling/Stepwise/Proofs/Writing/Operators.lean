import Stepwise.Proofs.Writing.Ladder

/-!
How expressions with operators are read from the tokens of their parts.
-/

namespace Stepwise.Script

open Stepwise.Script.Parser

namespace Level

variable {level : Level} {tokens others : List TokenKind} {left right expr : Expr}

theorem Resumes.chain {α : Type} {operator? : TokenKind → Option α}
    {build : α → Expr → Expr → Expr} {kind : TokenKind} {op : α}
    (repeats : level.repeats = true)
    (form : ∀ expr fuel read,
      level.rest expr fuel read = chainRest fuel operator? (expr level.tighter) build read)
    (extended : kind.extended? = some level) (operator : operator? kind = some op)
    (readLeft : level.Resumes tokens left) (readRight : level.tighter.Reads others right) :
    level.Resumes (tokens ++ kind :: others) (build op left right) := by
  intro depth least start middle answer finish shown stops enough room rest
  obtain ⟨link, shownLeft, isOperator, shownRight⟩ := Cursor.shows_append.mp shown
  have lower : level.tighter.height + 1 = level.height :=
    height_tighter (by rintro rfl; cases repeats)
  simp only [List.length_append, List.length_cons] at enough room
  rw [operand, if_pos repeats] at stops
  refine readLeft depth (least + 1) start link answer finish shownLeft ?_ (by omega) (by omega) ?_
  · rw [operand, if_pos repeats, isOperator, Level.stops, extended]
    simp only [decide_eq_true_eq]
    omega
  · intro fuel least_le
    obtain ⟨fuel, rfl⟩ : ∃ inner, fuel = inner + 1 := ⟨fuel - 1, by omega⟩
    have read := readRight depth link.next middle shownRight stops (by omega)
    have behind := rest fuel (by omega)
    rw [form] at behind ⊢
    exact chainRest_link (by rw [isOperator]; exact operator) read behind

theorem resumes_of_rule (once : level.repeats = false)
    (read : ∀ depth start finish, start.Shows tokens finish → level.stops finish.kind = true →
      16 * tokens.length + level.height + 1 ≤ depth →
      (rule depth (expressionAt depth) level).Answers start expr finish) :
    level.Resumes tokens expr := by
  intro depth least start middle answer finish shown stops enough room rest
  rw [operand, once, if_neg (by simp)] at stops
  have plain : ∀ expr fuel read, level.rest expr fuel read = pure read := by
    cases level <;> first | exact fun _ _ _ => rfl | cases once
  have same := rest least (Nat.le_refl least)
  simp only [plain, Answers.pure_iff] at same
  obtain ⟨rfl, rfl⟩ := same
  exact read depth start finish shown stops enough

theorem Resumes.logic (op : LogicOp) (readLeft : op.level.Resumes tokens left)
    (readRight : op.level.tighter.Reads others right) :
    op.level.Resumes (tokens ++ op.kind :: others) (.logic op left right) := by
  cases op with
  | and => exact .chain rfl (fun _ _ _ => rfl) rfl rfl readLeft readRight
  | or => exact .chain rfl (fun _ _ _ => rfl) rfl rfl readLeft readRight

theorem resumes_power (readBase : Level.trailer.Reads tokens left)
    (readExponent : Level.factor.Reads others right) :
    Level.power.Resumes (tokens ++ .symbol .doubleStar :: others) (.binary .power left right) := by
  apply resumes_of_rule rfl
  intro depth start finish shown stops enough
  obtain ⟨link, shownBase, isOperator, shownExponent⟩ := Cursor.shows_append.mp shown
  simp only [List.length_append, List.length_cons, height] at enough
  have base := readBase depth start link shownBase (by rw [isOperator]; rfl)
    (by simp only [height]; omega)
  have exponent := readExponent depth link.next finish shownExponent (factor_stops stops)
    (by simp only [height]; omega)
  simp only [rule, Answers.bind_iff base, Answers.eat_found isOperator, if_true,
    Answers.bind_iff exponent, Answers.pure_iff, and_self]

theorem repeats_leftLevel {op : BinaryOp} (groups : op ≠ .power) :
    op.leftLevel.repeats = true ∧ op.leftLevel ≠ .trailer := by
  cases op <;> first | exact ⟨rfl, by decide⟩ | exact (groups rfl).elim

theorem Resumes.binary {op : BinaryOp} (groups : op ≠ .power)
    (readLeft : op.leftLevel.Resumes tokens left) (readRight : op.rightLevel.Reads others right) :
    op.level.Resumes (tokens ++ op.kind :: others) (.binary op left right) := by
  cases op with
  | add => exact .chain rfl (fun _ _ _ => rfl) rfl rfl readLeft readRight
  | subtract => exact .chain rfl (fun _ _ _ => rfl) rfl rfl readLeft readRight
  | multiply => exact .chain rfl (fun _ _ _ => rfl) rfl rfl readLeft readRight
  | divide => exact .chain rfl (fun _ _ _ => rfl) rfl rfl readLeft readRight
  | floorDivide => exact .chain rfl (fun _ _ _ => rfl) rfl rfl readLeft readRight
  | modulo => exact .chain rfl (fun _ _ _ => rfl) rfl rfl readLeft readRight
  | power => exact (groups rfl).elim

theorem resumes_unary (op : UnaryOp) (read : op.level.Reads tokens expr) :
    op.level.Resumes (op.kind :: tokens) (.unary op expr) := by
  have once : op.level.repeats = false := by cases op <;> rfl
  apply resumes_of_rule once
  intro depth start finish shown stops enough
  obtain ⟨isOperator, shown⟩ := shown
  simp only [List.length_cons] at enough
  have operand := read depth start.next finish shown stops (by omega)
  cases op with
  | not =>
      simp only [UnaryOp.kind] at isOperator
      simp only [UnaryOp.level] at operand ⊢
      simp only [rule, Answers.eatWord_found isOperator, if_true, Answers.bind_iff operand,
        Answers.pure_iff, and_self]
  | negate | plus =>
      simp only [UnaryOp.kind] at isOperator
      simp only [UnaryOp.level] at operand ⊢
      simp only [rule, Answers.peek_bind, isOperator, signOp?, Answers.advance_bind,
        Answers.bind_iff operand, Answers.pure_iff, and_self]

theorem resumes_conditional {testTokens bodyTokens elseTokens : List TokenKind}
    {test body orelse : Expr} (readBody : Level.disjunction.Reads bodyTokens body)
    (readTest : Level.disjunction.Reads testTokens test)
    (readElse : Level.conditional.Reads elseTokens orelse) :
    Level.conditional.Resumes
      (bodyTokens ++ .keyword .ifWord :: (testTokens ++ .keyword .elseWord :: elseTokens))
      (.conditional test body orelse) := by
  apply resumes_of_rule rfl
  intro depth start finish shown stops enough
  obtain ⟨atIf, shownBody, isIf, shown⟩ := Cursor.shows_append.mp shown
  obtain ⟨atElse, shownTest, isElse, shownElse⟩ := Cursor.shows_append.mp shown
  simp only [List.length_append, List.length_cons, height] at enough
  have body := readBody depth start atIf shownBody (by rw [isIf]; rfl)
    (by simp only [height]; omega)
  have test := readTest depth atIf.next atElse shownTest (by rw [isElse]; rfl)
    (by simp only [height]; omega)
  have orelse := readElse depth atElse.next finish shownElse stops (by simp only [height]; omega)
  simp only [rule, Answers.bind_iff body, Answers.eatWord_found isIf, if_true,
    Answers.bind_iff test, Answers.eatWord_found isElse, Answers.bind_iff orelse,
    Answers.pure_iff, and_self]

end Level

/-- The tokens of operators and operands behind the first operand of a chain. -/
inductive ReadsLinks : List TokenKind → List (Comparison × Expr) → Prop where
  | nil : ReadsLinks [] []
  | cons {tokens others : List TokenKind} {op : Comparison} {operand : Expr}
      {rest : List (Comparison × Expr)} : Level.sum.Reads tokens operand → ReadsLinks others rest →
      ReadsLinks (op.kinds ++ (tokens ++ others)) ((op, operand) :: rest)

theorem comparisonOp?_of_shows {op : Comparison} {start finish : Cursor}
    (shown : start.Shows op.kinds finish) (starts : finish.kind.starts .sum = true) :
    ∃ double, comparisonOp? start.kind start.secondKind = some (op, double) ∧
      finish = if double then start.next.next else start.next := by
  rw [Cursor.secondKind_eq]
  cases op with
  | same =>
      obtain ⟨first, rfl⟩ := shown
      refine ⟨false, ?_, rfl⟩
      rw [first]
      unfold comparisonOp?
      split <;> simp_all [TokenKind.starts, Level.height]
  | notMember | notSame =>
      obtain ⟨first, second, rfl⟩ := shown
      exact ⟨true, by rw [first, second]; rfl, rfl⟩
  | _ =>
      obtain ⟨first, rfl⟩ := shown
      exact ⟨false, by rw [first]; rfl, rfl⟩

namespace ReadsLinks

variable {tokens : List TokenKind} {links : List (Comparison × Expr)}

/-- An operand of a chain ends where its next operator or what follows the chain starts. -/
theorem stops (reads : ReadsLinks tokens links) {start finish : Cursor}
    (shown : start.Shows tokens finish) (stops : Level.comparison.stops finish.kind = true) :
    Level.sum.stops start.kind = true := by
  cases reads with
  | nil =>
      cases shown
      exact Level.stops_mono stops (by decide)
  | @cons _ _ op =>
      obtain ⟨middle, shown, -⟩ := Cursor.shows_append.mp shown
      cases op <;> rw [shown.kind] <;> rfl

theorem answers (reads : ReadsLinks tokens links) (depth fuel : Nat) {start finish : Cursor}
    (shown : start.Shows tokens finish) (stops : Level.comparison.stops finish.kind = true)
    (enough : 16 * tokens.length + 7 ≤ depth) (room : tokens.length + 1 ≤ fuel) :
    (comparisonLinks fuel (expressionAt depth .sum)).Answers start links finish := by
  induction reads generalizing start fuel with
  | nil =>
      cases shown
      obtain ⟨fuel, rfl⟩ : ∃ inner, fuel = inner + 1 := ⟨fuel - 1, by simp at room; omega⟩
      exact comparisonLinks_ends (Level.operator?_of_stops
        (comparisonOp? · finish.secondKind)
        (fun _ => extended?_of_comparisonOp?) stops)
  | @cons tokens others op operand rest readOperand readRest inductionHypothesis =>
      obtain ⟨atOperand, shownOp, shown⟩ := Cursor.shows_append.mp shown
      obtain ⟨middle, shownOperand, shownRest⟩ := Cursor.shows_append.mp shown
      have filled : 1 ≤ op.kinds.length := by cases op <;> decide
      simp only [List.length_append] at enough room
      obtain ⟨fuel, rfl⟩ : ∃ inner, fuel = inner + 1 := ⟨fuel - 1, by omega⟩
      have operand := readOperand depth atOperand middle shownOperand
        (readRest.stops shownRest stops) (by simp only [Level.height]; omega)
      obtain ⟨double, operator, moved⟩ :=
        comparisonOp?_of_shows shownOp (expressionAt_starts operand)
      have others := inductionHypothesis fuel shownRest (by omega) (by omega)
      refine Answers.collect_some ?_ others
      cases double with
      | false =>
          obtain rfl : atOperand = start.next := moved
          simp only [Answers.get_bind, operator, Answers.advance_bind, Bool.false_eq_true, if_false,
            Answers.bind_iff operand, Answers.pure_iff, and_self]
      | true =>
          obtain rfl : atOperand = start.next.next := moved
          simp only [Answers.get_bind, operator, Answers.advance_bind, if_true,
            Answers.bind_iff operand, Answers.pure_iff, and_self]

end ReadsLinks

theorem Level.resumes_compare {tokens others : List TokenKind} {left : Expr}
    {links : List (Comparison × Expr)} (filled : links ≠ [])
    (readLeft : Level.sum.Reads tokens left) (readLinks : ReadsLinks others links) :
    Level.comparison.Resumes (tokens ++ others) (.compare left links) := by
  apply resumes_of_rule rfl
  intro depth start finish shown stops enough
  obtain ⟨middle, shownLeft, shownLinks⟩ := Cursor.shows_append.mp shown
  simp only [List.length_append, height] at enough
  have left := readLeft depth start middle shownLeft (readLinks.stops shownLinks stops)
    (by simp only [height]; omega)
  have links := readLinks.answers depth depth shownLinks stops (by omega) (by omega)
  simp only [rule, Answers.bind_iff left, Answers.bind_iff links, Answers.pure_iff, and_self]

end Stepwise.Script
