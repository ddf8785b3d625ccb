import Stepwise.Proofs.Writing.Answers
import Stepwise.Proofs.Writing.Written

/-!
Climbing the ladder of expression levels.

`Level.Reads` says that the tokens of an expression are read at a level, whatever stands behind them
that stops the level.  A level that repeats its operator must also be entered in the middle of its
loop: the left operand of a sum is read by the loop that reads the sum.  `Level.Resumes` therefore
says what the whole loop answers, given what it answers from behind the tokens on.
-/

namespace Stepwise.Script

open Stepwise.Script.Parser

def chainLink? {α : Type} (operator? : TokenKind → Option α) (operand : Parser Expr) :
    Parser (Option (α × Expr)) := do
  match operator? (← peek) with
  | .none => return .none
  | .some op => do
      advance
      return .some (op, ← operand)

def chainRest {α : Type} (fuel : Nat) (operator? : TokenKind → Option α) (operand : Parser Expr)
    (build : α → Expr → Expr → Expr) (first : Expr) : Parser Expr := do
  let links ← collect fuel (chainLink? operator? operand)
  return links.foldl (fun left link => build link.1 left link.2) first

def conjunctionOp? (kind : TokenKind) : Option LogicOp :=
  if kind.isKeyword .andWord then some .and else none

def disjunctionOp? (kind : TokenKind) : Option LogicOp :=
  if kind.isKeyword .orWord then some .or else none

def Level.repeats : Level → Bool
  | .disjunction | .conjunction | .sum | .term | .trailer => true
  | _ => false

/-- The level that the loop of a level reads its operands at. -/
def Level.operand (level : Level) : Level :=
  if level.repeats then level.tighter else level

/-- What is left to read of a level when an expression of it has been read. -/
def Level.rest (level : Level) (expr : Level → Parser Expr) (fuel : Nat) (read : Expr) :
    Parser Expr :=
  match level with
  | .disjunction => chainRest fuel disjunctionOp? (expr .conjunction) .logic read
  | .conjunction => chainRest fuel conjunctionOp? (expr .negation) .logic read
  | .sum => chainRest fuel sumOp? (expr .term) .binary read
  | .term => chainRest fuel termOp? (expr .factor) .binary read
  | .trailer => trailers expr fuel read
  | _ => pure read

theorem rule_of_repeats {level : Level} (repeats : level.repeats = true) (depth : Nat)
    (expr : Level → Parser Expr) :
    rule depth expr level = expr level.tighter >>= level.rest expr depth := by
  cases level <;> first | rfl | cases repeats

section Chains

variable {α : Type} {operator? : TokenKind → Option α} {operand : Parser Expr}
  {build : α → Expr → Expr → Expr} {fuel : Nat} {start middle finish : Cursor}
  {left right answer : Expr} {op : α}

theorem chainRest_ends (ended : operator? start.kind = none) :
    (chainRest (fuel + 1) operator? operand build left).Answers start left start := by
  have unlinked : (chainLink? operator? operand).Answers start none start := by
    simp only [chainLink?, Answers.peek_bind, ended, Answers.pure_iff, and_self]
  simp only [chainRest, Answers.bind_iff (Answers.collect_none fuel unlinked), List.foldl_nil,
    Answers.pure_iff, and_self]

theorem chainRest_link (operator : operator? start.kind = some op)
    (read : operand.Answers start.next right middle)
    (rest : (chainRest fuel operator? operand build (build op left right)).Answers middle answer
      finish) :
    (chainRest (fuel + 1) operator? operand build left).Answers start answer finish := by
  unfold chainRest at rest ⊢
  obtain ⟨links, last, collected, folded⟩ := Parser.bind_ended rest
  have link : (chainLink? operator? operand).Answers start (some (op, right)) middle := by
    simp only [chainLink?, Answers.peek_bind, operator, Answers.advance_bind, Answers.bind_iff read,
      Answers.pure_iff, and_self]
  exact Answers.bind (Answers.collect_some link collected) folded

theorem comparisonLinks_ends (ended : comparisonOp? start.kind start.secondKind = none) :
    (comparisonLinks (fuel + 1) operand).Answers start [] start := by
  apply Answers.collect_none
  simp only [Answers.get_bind, ended, Answers.pure_iff, and_self]

end Chains

namespace TokenKind

variable {test : TokenKind → Bool} {kind : TokenKind}

theorem isSymbol_of_ne {symbol : Symbol} (apart : kind ≠ .symbol symbol) :
    kind.isSymbol symbol = false := by
  cases kind with
  | symbol actual => exact beq_eq_false_iff_ne.mpr fun same => apart (same ▸ rfl)
  | _ => rfl

theorem isKeyword_of_ne {keyword : Keyword} (apart : kind ≠ .keyword keyword) :
    kind.isKeyword keyword = false := by
  cases kind with
  | keyword actual => exact beq_eq_false_iff_ne.mpr fun same => apart (same ▸ rfl)
  | _ => rfl

theorem isSymbol_of_test (symbol : Symbol) (passes : test kind = true)
    (fails : test (.symbol symbol) = false) : kind.isSymbol symbol = false := by
  apply isSymbol_of_ne
  rintro rfl
  rw [passes] at fails
  cases fails

theorem isKeyword_of_test (keyword : Keyword) (passes : test kind = true)
    (fails : test (.keyword keyword) = false) : kind.isKeyword keyword = false := by
  apply isKeyword_of_ne
  rintro rfl
  rw [passes] at fails
  cases fails

end TokenKind

open TokenKind (isSymbol_of_test isKeyword_of_test)

namespace Level

variable {level wider : Level} {kind : TokenKind}

theorem stops_mono (above : wider.stops kind = true) (le : level.height ≤ wider.height) :
    level.stops kind = true := by
  unfold stops at above ⊢
  split
  · rename_i extended found
    simp only [found, decide_eq_true_eq] at above ⊢
    omega
  · rfl

theorem stops_tighter (above : level.stops kind = true) : level.tighter.stops kind = true := by
  by_cases inner : level = .atom
  · rw [inner] at above ⊢
    exact above
  · exact stops_mono above (by have := height_tighter inner; omega)

/-- No operator is of the level of signs, so that an exponent ends where a power does. -/
theorem factor_stops (above : power.stops kind = true) : factor.stops kind = true := by
  unfold stops at above ⊢
  split
  · rename_i extended found
    have apart : extended ≠ .factor := by
      rintro rfl
      unfold TokenKind.extended? at found
      split at found <;> cases found
    rw [found] at above
    cases extended <;> first | exact above | exact (apart rfl).elim
  · rfl

theorem operator?_of_stops {α : Type} (operator? : TokenKind → Option α)
    (extends_ : ∀ op, operator? kind = some op → kind.extended? = some level)
    (above : level.stops kind = true) : operator? kind = none := by
  cases found : operator? kind with
  | none => rfl
  | some op => simp [stops, extends_ op found] at above

end Level

theorem extended?_of_disjunctionOp? {kind : TokenKind} {op : LogicOp}
    (found : disjunctionOp? kind = some op) : kind.extended? = some .disjunction := by
  cases kind with
  | keyword word =>
      cases word <;> first | rfl | cases found
  | _ => cases found

theorem extended?_of_conjunctionOp? {kind : TokenKind} {op : LogicOp}
    (found : conjunctionOp? kind = some op) : kind.extended? = some .conjunction := by
  cases kind with
  | keyword word =>
      cases word <;> first | rfl | cases found
  | _ => cases found

theorem extended?_of_sumOp? {kind : TokenKind} {op : BinaryOp} (found : sumOp? kind = some op) :
    kind.extended? = some .sum := by
  unfold sumOp? at found
  split at found <;> first | rfl | cases found

theorem extended?_of_termOp? {kind : TokenKind} {op : BinaryOp} (found : termOp? kind = some op) :
    kind.extended? = some .term := by
  unfold termOp? at found
  split at found <;> first | rfl | cases found

theorem extended?_of_comparisonOp? {kind second : TokenKind} {op : Comparison × Bool}
    (found : comparisonOp? kind second = some op) : kind.extended? = some .comparison := by
  unfold comparisonOp? at found
  split at found <;> first | rfl | cases found

/-- Behind an expression of a level, nothing is left to read at a token that stops the level. -/
theorem Level.rest_ends {level : Level} {start : Cursor} (stops : level.stops start.kind = true)
    (expr : Level → Parser Expr) (fuel : Nat) (read : Expr) :
    (level.rest expr (fuel + 1) read).Answers start read start := by
  cases level with
  | disjunction =>
      exact chainRest_ends
        (operator?_of_stops disjunctionOp? (fun _ => extended?_of_disjunctionOp?) stops)
  | conjunction =>
      exact chainRest_ends
        (operator?_of_stops conjunctionOp? (fun _ => extended?_of_conjunctionOp?) stops)
  | sum => exact chainRest_ends (operator?_of_stops sumOp? (fun _ => extended?_of_sumOp?) stops)
  | term => exact chainRest_ends (operator?_of_stops termOp? (fun _ => extended?_of_termOp?) stops)
  | trailer =>
      have uncalled := isSymbol_of_test .leftParen stops rfl
      have whole := isSymbol_of_test .leftBracket stops rfl
      have pointless := isSymbol_of_test .dot stops rfl
      simp [rest, trailers, uncalled, whole, pointless]
  | _ => simp [rest]

theorem TokenKind.starts_mono {kind : TokenKind} {level wider : Level}
    (starts : kind.starts level = true) (le : level.height ≤ wider.height) :
    kind.starts wider = true := by
  unfold TokenKind.starts at starts ⊢
  split <;> simp_all <;> omega

theorem rule_of_descends {level : Level}
    (descends : level ≠ .negation ∧ level ≠ .factor ∧ level ≠ .atom) (depth : Nat)
    (expr : Level → Parser Expr) :
    ∃ next, rule depth expr level = expr level.tighter >>= next := by
  cases level <;> first | exact ⟨_, rfl⟩ | simp at descends

theorem TokenKind.starts_of_signOp? {kind : TokenKind} {op : UnaryOp}
    (found : signOp? kind = some op) : kind.starts .factor = true := by
  unfold signOp? at found
  split at found <;> first | rfl | cases found

theorem TokenKind.isSymbol_of_starts {kind : TokenKind} {level : Level} (symbol : Symbol)
    (starts : kind.starts level = true) (apart : (TokenKind.symbol symbol).starts level = false) :
    kind.isSymbol symbol = false := by
  apply isSymbol_of_ne
  rintro rfl
  rw [starts] at apart
  cases apart

theorem TokenKind.signOp?_of_starts {kind : TokenKind} (starts : kind.starts .power = true) :
    signOp? kind = none := by
  unfold signOp?
  split <;> first | rfl | cases starts

theorem TokenKind.starts_of_isKeyword {kind : TokenKind} (found : kind.isKeyword .notWord = true) :
    kind.starts .negation = true := by
  cases kind with
  | keyword word => rw [show word = .notWord from beq_iff_eq.mp found]; rfl
  | _ => cases found

theorem atom_starts {depth : Nat} {expr : Level → Parser Expr} {start finish : Cursor}
    {answer : Expr} (answers : (atom depth expr).Answers start answer finish) :
    start.kind.starts .atom = true := by
  rw [atom, Answers.peek_bind] at answers
  generalize start.kind = kind at answers ⊢
  split at answers <;> first | rfl | exact (Answers.fail_iff.mp answers).elim

theorem expressionAt_starts {depth : Nat} {level : Level} {start finish : Cursor} {expr : Expr}
    (answers : (expressionAt depth level).Answers start expr finish) :
    start.kind.starts level = true := by
  induction depth generalizing level start expr finish with
  | zero => cases answers
  | succ depth inductionHypothesis =>
      unfold expressionAt at answers
      by_cases descends : level ≠ .negation ∧ level ≠ .factor ∧ level ≠ .atom
      · obtain ⟨next, form⟩ := rule_of_descends descends depth (expressionAt depth)
        rw [form] at answers
        obtain ⟨first, middle, read, -⟩ := Parser.bind_ended answers
        have lower := Level.height_tighter descends.2.2
        exact TokenKind.starts_mono (inductionHypothesis read) (by omega)
      · cases level with
        | negation =>
            rw [rule, Answers.eatWord_bind] at answers
            cases found : start.kind.isKeyword .notWord with
            | true => exact TokenKind.starts_of_isKeyword found
            | false =>
                simp only [found, Bool.false_eq_true, if_false] at answers
                exact TokenKind.starts_mono (inductionHypothesis answers) (by decide)
        | factor =>
            rw [rule, Answers.peek_bind] at answers
            cases found : signOp? start.kind with
            | some op => exact TokenKind.starts_of_signOp? found
            | none =>
                rw [found] at answers
                exact TokenKind.starts_mono (inductionHypothesis answers) (by decide)
        | atom => exact atom_starts answers
        | _ => simp at descends

namespace Level

/-- The tokens of an expression are read at a level, given enough depth. -/
def Reads (level : Level) (tokens : List TokenKind) (expr : Expr) : Prop :=
  ∀ depth start finish, start.Shows tokens finish → level.stops finish.kind = true →
    16 * tokens.length + level.height + 2 ≤ depth →
    (expressionAt depth level).Answers start expr finish

/-- The tokens of an expression are read by the loop of a level, which resumes behind them if a
token follows that passes a test. -/
def ResumesBefore (level : Level) (follows : TokenKind → Bool) (tokens : List TokenKind)
    (expr : Expr) : Prop :=
  ∀ depth least start middle answer finish, start.Shows tokens middle →
    follows middle.kind = true →
    16 * tokens.length + level.height + 1 ≤ depth → least + tokens.length ≤ depth →
    (∀ fuel, least ≤ fuel →
      (level.rest (expressionAt depth) fuel expr).Answers middle answer finish) →
    (rule depth (expressionAt depth) level).Answers start answer finish

/-- The tokens of an expression are read by the loop of a level, which resumes behind them wherever
an operand of the level ends. -/
abbrev Resumes (level : Level) (tokens : List TokenKind) (expr : Expr) : Prop :=
  level.ResumesBefore level.operand.stops tokens expr

variable {level : Level} {tokens : List TokenKind} {expr : Expr}

theorem operand_stops {kind : TokenKind} (stops : level.stops kind = true) :
    level.operand.stops kind = true := by
  unfold operand
  split
  · exact stops_tighter stops
  · exact stops

variable {follows weaker : TokenKind → Bool}

theorem ResumesBefore.mono (resumes : level.ResumesBefore weaker tokens expr)
    (implies : ∀ kind, follows kind = true → weaker kind = true) :
    level.ResumesBefore follows tokens expr := by
  intro depth least start middle answer finish shown passes
  exact resumes depth least start middle answer finish shown (implies _ passes)

theorem ResumesBefore.reads (resumes : level.ResumesBefore follows tokens expr)
    (implies : ∀ kind, level.stops kind = true → follows kind = true) :
    level.Reads tokens expr := by
  intro depth start finish shown stops enough
  obtain ⟨depth, rfl⟩ : ∃ inner, depth = inner + 1 := ⟨depth - 1, by omega⟩
  refine resumes depth 1 start finish expr finish shown (implies _ stops) (by omega) (by omega) ?_
  intro fuel positive
  obtain ⟨fuel, rfl⟩ : ∃ inner, fuel = inner + 1 := ⟨fuel - 1, by omega⟩
  exact rest_ends stops _ fuel expr

theorem Resumes.reads (resumes : level.Resumes tokens expr) : level.Reads tokens expr :=
  ResumesBefore.reads resumes fun _ => operand_stops

theorem Reads.resumes (repeats : level.repeats = true) (reads : level.tighter.Reads tokens expr) :
    level.Resumes tokens expr := by
  intro depth least start middle answer finish shown stops enough room rest
  have lower : level.tighter.height + 1 = level.height :=
    height_tighter (by rintro rfl; cases repeats)
  rw [operand, if_pos repeats] at stops
  rw [rule_of_repeats repeats]
  have read := reads depth start middle shown stops (by omega)
  exact read.bind (rest depth (by omega))

theorem Reads.loosen (reads : level.tighter.Reads tokens expr) : level.Reads tokens expr := by
  by_cases repeats : level.repeats = true
  · exact (Resumes.reads (reads.resumes repeats))
  by_cases inner : level = .atom
  · subst inner
    exact reads
  intro depth start finish shown stops enough
  have lower := height_tighter inner
  obtain ⟨depth, rfl⟩ : ∃ inner, depth = inner + 1 := ⟨depth - 1, by omega⟩
  have read := reads depth start finish shown (stops_tighter stops) (by omega)
  have starts := expressionAt_starts read
  change (rule depth (expressionAt depth) level).Answers start expr finish
  cases level with
  | conditional =>
      refine read.bind ?_
      simp [isKeyword_of_test .ifWord stops rfl]
  | negation =>
      have plain : start.kind.isKeyword .notWord = false := by
        apply TokenKind.isKeyword_of_ne
        intro same
        rw [same] at starts
        cases starts
      rw [rule, Answers.eatWord_bind, plain]
      exact read
  | comparison =>
      obtain ⟨depth, rfl⟩ : ∃ inner, depth = inner + 1 := ⟨depth - 1, by omega⟩
      have ended : comparisonOp? finish.kind finish.secondKind = none :=
        operator?_of_stops (comparisonOp? · finish.secondKind)
          (fun _ => extended?_of_comparisonOp?) stops
      refine read.bind ((comparisonLinks_ends ended).bind ?_)
      simp
  | factor =>
      have unsigned : signOp? start.kind = none := TokenKind.signOp?_of_starts starts
      rw [rule, Answers.peek_bind, unsigned]
      exact read
  | power =>
      refine read.bind ?_
      simp [isSymbol_of_test .doubleStar stops rfl]
  | _ => simp [Level.repeats] at repeats inner

theorem Reads.mono {wider : Level} (reads : level.Reads tokens expr)
    (le : level.height ≤ wider.height) : wider.Reads tokens expr := by
  by_cases same : level = wider
  · exact same ▸ reads
  · have below : level.height < wider.height := by
      have apart : level.height ≠ wider.height := fun equal => same (height_injective equal)
      omega
    have inner : wider ≠ .atom := by
      rintro rfl
      simp [height] at below
    have lower := height_tighter inner
    have lowered : wider.tighter.Reads tokens expr := reads.mono (by omega)
    exact lowered.loosen
termination_by wider.height

end Level

end Stepwise.Script
