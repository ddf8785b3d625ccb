import Stepwise.Proofs.Parsing.Shape
import Stepwise.Proofs.Scanning

/-!
Where readers of tokens stop.

`Yields` follows a reader from one cursor on.  Readers of expressions and of simple statements stop
behind a token that is written in the source, and they do nothing to the cursor but move it.
-/

namespace Stepwise.Script

/-- The second cursor is the first one after some steps. -/
inductive Cursor.Steps : Cursor → Cursor → Prop where
  | rest {cursor : Cursor} : Steps cursor cursor
  | next {start finish : Cursor} : Steps start.next finish → Steps start finish

/-- The first cursor is at a token that is written in the source, and the second one is behind it. -/
structure Cursor.Passes (start finish : Cursor) : Prop where
  written : start.kind.isWritten = true
  steps : start.next.Steps finish

namespace Cursor

variable {start middle finish : Cursor}

theorem Steps.trans (before : start.Steps middle) (after : middle.Steps finish) :
    start.Steps finish := by
  induction before with
  | rest => exact after
  | next _ inductionHypothesis => exact .next (inductionHypothesis after)

theorem Steps.leads (steps : start.Steps finish) (walk : Walk) : walk.Leads start finish := by
  induction steps with
  | rest => exact walk.stay _
  | next _ inductionHypothesis => exact walk.trans (walk.next _) inductionHypothesis

theorem Passes.behind (passes : start.Passes middle) (after : middle.Steps finish) :
    start.Passes finish :=
  ⟨passes.written, passes.steps.trans after⟩

theorem Passes.toSteps (passes : start.Passes finish) : start.Steps finish := .next passes.steps

end Cursor

def stepping : Walk where
  Leads := Cursor.Steps
  stay _ := .rest
  trans := Cursor.Steps.trans
  next _ := .next .rest

theorem TokenKind.isWritten_of_isKeyword {kind : TokenKind} {keyword : Keyword}
    (isWord : kind.isKeyword keyword = true) : kind.isWritten = true := by
  unfold TokenKind.isKeyword at isWord
  split at isWord
  · rfl
  · cases isWord

theorem TokenKind.isWritten_of_isSymbol {kind : TokenKind} {symbol : Symbol}
    (isSymbol : kind.isSymbol symbol = true) : kind.isWritten = true := by
  unfold TokenKind.isSymbol at isSymbol
  split at isSymbol
  · rfl
  · cases isSymbol

section

variable {α β : Type} {start : Cursor} {parser : Parser α} {expected wanted : α → Cursor → Prop}

variable (start) in
/-- From a cursor on, whenever the reader answers, its answer and where it stopped are as expected. -/
def Yields (parser : Parser α) (expected : α → Cursor → Prop) : Prop :=
  ∀ answer finish, (parser start).run = some (.ok (answer, finish)) → expected answer finish

namespace Yields

theorem weaken (yields : Yields start parser expected)
    (implies : ∀ answer finish, expected answer finish → wanted answer finish) :
    Yields start parser wanted :=
  fun answer finish ended => implies answer finish (yields answer finish ended)

theorem and (yields : Yields start parser expected) (also : Yields start parser wanted) :
    Yields start parser fun answer finish => expected answer finish ∧ wanted answer finish :=
  fun answer finish ended => ⟨yields answer finish ended, also answer finish ended⟩

theorem ofEnsures {expected : α → Prop} (ensures : stepping.Ensures parser expected) :
    Yields start parser fun answer finish => start.Steps finish ∧ expected answer :=
  ensures start

theorem pure {answer : α} (holds : expected answer start) :
    Yields start (Pure.pure answer) expected := by
  intro _ finish ended
  cases ended
  exact holds

theorem bind {next : α → Parser β} {wanted : β → Cursor → Prop}
    (first : Yields start parser expected)
    (rest : ∀ answer middle, expected answer middle → Yields middle (next answer) wanted) :
    Yields start (parser >>= next) wanted := by
  intro answer finish ended
  obtain ⟨found, middle, read, readOn⟩ := Parser.bind_ended ended
  exact rest found middle (first found middle read) answer finish readOn

theorem sequence {next : α → Parser β} {wanted : β → Cursor → Prop} (along : stepping.Along parser)
    (rest : ∀ answer middle, start.Steps middle → Yields middle (next answer) wanted) :
    Yields start (parser >>= next) wanted :=
  bind (ofEnsures along) fun answer middle moved => rest answer middle moved.1

theorem silent (ensures : stepping.Ensures parser fun _ => False) : Yields start parser expected :=
  (ofEnsures ensures).weaken fun _ _ impossible => impossible.2.elim

theorem fail (problem : SyntaxProblem) : Yields start (Parser.fail problem) expected :=
  silent (stepping.fail problem)

theorem stop {next : α → Parser β} {wanted : β → Cursor → Prop} (problem : SyntaxProblem) :
    Yields start (Parser.fail problem >>= next) wanted :=
  silent (stepping.stop problem)

theorem provided {next : Unit → Parser β} {wanted : β → Cursor → Prop} (condition : Bool)
    (problem : SyntaxProblem) (rest : condition = true → Yields start (next ()) wanted) :
    Yields start (if condition = true then next () else Parser.fail problem >>= next) wanted := by
  cases condition with
  | true => exact rest rfl
  | false => exact stop problem

theorem barring {next : Unit → Parser β} {wanted : β → Cursor → Prop} (condition : Bool)
    (problem : SyntaxProblem) (rest : condition = false → Yields start (next ()) wanted) :
    Yields start (if condition = true then Parser.fail problem >>= next else next ()) wanted := by
  cases condition with
  | true => exact stop problem
  | false => exact rest rfl

theorem skip {next : Unit → Parser β} {wanted : β → Cursor → Prop} (present : Bool)
    (along : stepping.Along parser)
    (rest : ∀ middle, start.Steps middle → Yields middle (next ()) wanted) :
    Yields start (if present = true then discard parser >>= next else next ()) wanted := by
  cases present with
  | true => exact sequence (stepping.map _ along) fun _ => rest
  | false => exact rest start .rest

section

variable {wanted : β → Cursor → Prop}

theorem peek {next : TokenKind → Parser β} (rest : Yields start (next start.kind) wanted) :
    Yields start (Parser.peek >>= next) wanted := rest

theorem line {next : Nat → Parser β} (rest : Yields start (next start.line) wanted) :
    Yields start (Parser.line >>= next) wanted := rest

theorem advance {next : Unit → Parser β} (rest : Yields start.next (next ()) wanted) :
    Yields start (Parser.advance >>= next) wanted := rest

theorem atWord? {next : Bool → Parser β} (keyword : Keyword)
    (rest : Yields start (next (start.kind.isKeyword keyword)) wanted) :
    Yields start (Parser.atWord? keyword >>= next) wanted := rest

theorem eatIf {next : Bool → Parser β} (test : TokenKind → Bool)
    (eaten : test start.kind = true → Yields start.next (next true) wanted)
    (left : test start.kind = false → Yields start (next false) wanted) :
    Yields start (Parser.eatIf test >>= next) wanted := by
  have eats : Yields start (Parser.eatIf test) fun found finish =>
      test start.kind = found ∧ finish = if found then start.next else start := by
    refine peek ?_
    cases found : test start.kind with
    | true => exact advance (pure ⟨rfl, rfl⟩)
    | false => exact pure ⟨rfl, rfl⟩
  refine bind eats fun found finish here => ?_
  obtain ⟨same, rfl⟩ := here
  cases found with
  | true => exact eaten same
  | false => exact left same

theorem expect {next : Unit → Parser β} (symbol : Symbol) (what : String)
    (rest : start.kind.isSymbol symbol = true → Yields start.next (next ()) wanted) :
    Yields start (Parser.expect symbol what >>= next) wanted := by
  have expects : Yields start (Parser.expect symbol what) fun _ finish =>
      start.kind.isSymbol symbol = true ∧ finish = start.next :=
    eatIf _ (fun found => pure ⟨found, rfl⟩) fun _ => fail _
  refine bind expects fun _ finish here => ?_
  obtain ⟨found, rfl⟩ := here
  exact rest found

end

end Yields

end

inductive Chain {α : Type} (each : Cursor → α → Cursor → Prop) :
    Cursor → List α → Cursor → Prop where
  | done {cursor : Cursor} : Chain each cursor [] cursor
  | more {start middle finish : Cursor} {item : α} {rest : List α} :
      each start item middle → Chain each middle rest finish → Chain each start (item :: rest) finish

def Offers {α : Type} (ends : Cursor → Prop) (each : Cursor → α → Cursor → Prop) (start : Cursor) :
    Option α → Cursor → Prop
  | none, finish => finish = start ∧ ends start
  | some item, finish => each start item finish

theorem Yields.collect {α : Type} {ends : Cursor → Prop} {each : Cursor → α → Cursor → Prop}
    {step : Parser (Option α)} (offers : ∀ start, Yields start step (Offers ends each start))
    (depth : Nat) (start : Cursor) :
    Yields start (Parser.collect depth step) fun items finish =>
      Chain each start items finish ∧ ends finish := by
  induction depth generalizing start with
  | zero => exact silent stepping.outOfDepth
  | succ depth inductionHypothesis =>
      refine bind (offers start) fun found middle holds => ?_
      cases found with
      | none =>
          obtain ⟨rfl, ended⟩ := holds
          exact pure ⟨.done, ended⟩
      | some first =>
          exact bind (inductionHypothesis middle) fun rest finish chain =>
            pure ⟨.more holds chain.1, chain.2⟩

def Consumes {α : Type} (parser : Parser α) : Prop :=
  ∀ start : Cursor, Yields start parser fun _ finish => start.Passes finish

theorem Yields.past {β : Type} {start : Cursor} {next : Unit → Parser β}
    (kind : start.kind.isWritten = true) (along : stepping.Along (next ())) :
    Yields start (Parser.advance >>= next) fun _ finish => start.Passes finish :=
  advance ((ofEnsures along).weaken fun _ _ moved => ⟨kind, moved.1⟩)

namespace Consumes

variable {α β : Type} {parser : Parser α}

theorem bind {next : α → Parser β} (consumes : Consumes parser)
    (along : ∀ answer, stepping.Along (next answer)) : Consumes (parser >>= next) :=
  fun start => Yields.bind (consumes start) fun answer _ passes =>
    (Yields.ofEnsures (along answer)).weaken fun _ _ moved => passes.behind moved.1

theorem leftChain {operand : Parser Expr} (consumes : Consumes operand)
    (along : stepping.Along operand) (depth : Nat) (operator? : TokenKind → Option α)
    (build : α → Expr → Expr → Expr) :
    Consumes (Script.leftChain depth operator? operand build) := by
  let walk := stepping
  refine consumes.bind fun first => ?_
  refine walk.sequence (walk.collect_along ?_ depth) fun links => walk.pure trivial
  refine walk.sequence walk.peek fun kind => ?_
  split
  · exact walk.pure trivial
  · refine walk.sequence walk.advance fun _ => ?_
    exact walk.sequence along fun _ => walk.pure trivial

/-- A word in front, then a reader that need not pass anything itself. -/
theorem word {keyword : Keyword} {found : Parser α} {missing : Parser α}
    (along : stepping.Along found) (consumes : Consumes missing) :
    Consumes (do if ← Parser.eatWord keyword then found else missing) := by
  intro start
  apply Yields.eatIf
  · intro isWord
    have written := TokenKind.isWritten_of_isKeyword isWord
    exact (Yields.ofEnsures along).weaken fun _ _ moved => ⟨written, moved.1⟩
  · intro _
    exact consumes start

section

variable {expr : Level → Parser Expr} (consumes : ∀ level, Consumes (expr level))
  (along : ∀ level, stepping.Along (expr level))

include along

omit consumes in
theorem atom (depth : Nat) : Consumes (Script.atom depth expr) := by
  let walk := stepping
  intro start
  refine Yields.peek ?_
  have literal : ∀ expr : Expr, walk.Along (Pure.pure expr) := fun expr => walk.pure trivial
  split <;> rename_i same
  · exact Yields.past (by rw [same]; rfl) (literal _)
  · exact Yields.past (by rw [same]; rfl) (literal _)
  · refine Yields.past (by rw [same]; rfl) ?_
    refine walk.sequence (walk.collect_along ?_ depth) fun _ => walk.pure trivial
    refine walk.sequence walk.peek fun kind => ?_
    split
    · exact walk.sequence walk.advance fun _ => walk.pure trivial
    · exact walk.pure trivial
  · exact Yields.past (by rw [same]; rfl) (literal _)
  · exact Yields.past (by rw [same]; rfl) (literal _)
  · exact Yields.past (by rw [same]; rfl) (literal _)
  · exact Yields.past (by rw [same]; rfl) (literal _)
  · exact Yields.past (by rw [same]; rfl) (walk.bracketed along depth _ _ _ _)
  · exact Yields.past (by rw [same]; rfl) (walk.bracketed along depth _ _ _ _)
  · refine Yields.past (by rw [same]; rfl) ?_
    exact walk.sequence (walk.entries along depth) fun _ => walk.pure trivial
  · exact Yields.fail _

include consumes

theorem rule (depth : Nat) (level : Level) : Consumes (Script.rule depth expr level) := by
  let walk := stepping
  cases level with
  | conditional =>
      refine (consumes .disjunction).bind fun body => ?_
      refine walk.sequence (walk.eatWord .ifWord) fun found => ?_
      split
      · refine walk.sequence (along .disjunction) fun test => ?_
        refine walk.sequence (walk.eatWord .elseWord) fun found => ?_
        split
        · exact walk.sequence (along .conditional) fun _ => walk.pure trivial
        · exact walk.stop _
      · exact walk.pure trivial
  | disjunction => exact leftChain (consumes .conjunction) (along .conjunction) depth _ _
  | conjunction => exact leftChain (consumes .negation) (along .negation) depth _ _
  | negation =>
      exact word (walk.sequence (along .negation) fun _ => walk.pure trivial) (consumes .comparison)
  | comparison =>
      refine (consumes .sum).bind fun left => ?_
      refine walk.sequence (walk.comparisonLinks (along .sum) depth) fun links => ?_
      split <;> exact walk.pure trivial
  | sum => exact leftChain (consumes .term) (along .term) depth _ _
  | term => exact leftChain (consumes .factor) (along .factor) depth _ _
  | factor =>
      intro start
      refine Yields.peek ?_
      split
      · rename_i op found
        refine Yields.past ?_ (walk.sequence (along .factor) fun _ => walk.pure trivial)
        unfold signOp? at found
        split at found <;> rename_i same
        · rw [same]; rfl
        · rw [same]; rfl
        · cases found
      · exact consumes .power _
  | power =>
      refine (consumes .trailer).bind fun base => ?_
      refine walk.sequence (walk.eat .doubleStar) fun found => ?_
      split
      · exact walk.sequence (along .factor) fun _ => walk.pure trivial
      · exact walk.pure trivial
  | trailer => exact (consumes .atom).bind fun base => walk.trailers along depth base
  | atom => exact atom along depth

end

theorem expressionAt (depth : Nat) (level : Level) : Consumes (Script.expressionAt depth level) := by
  induction depth generalizing level with
  | zero => exact fun start => .silent stepping.outOfDepth
  | succ depth inductionHypothesis =>
      exact rule inductionHypothesis (stepping.expressionAt depth) depth level

theorem testList (depth : Nat) : Consumes (Script.testList depth) := by
  let walk := stepping
  have along := walk.expressionAt depth .conditional
  refine (expressionAt depth .conditional).bind fun first => ?_
  refine walk.sequence (walk.at? .comma) fun several => ?_
  split
  · refine walk.sequence (walk.afterCommas ?_ along depth) fun rest => walk.pure trivial
    refine walk.sequence walk.atStatementEnd? fun ended => ?_
    exact walk.sequence (walk.at? .assign) fun _ => walk.pure trivial
  · exact walk.pure trivial

theorem smallForm (depth : Nat) (around : Surroundings) :
    Consumes (Script.smallForm depth around) := by
  let walk := stepping
  have tested := walk.expressionAt depth .conditional
  intro start
  refine Yields.line (Yields.peek ?_)
  split <;> rename_i same
  · exact Yields.past (by rw [same]; rfl) (walk.pure trivial)
  · exact Yields.provided _ _ fun _ => Yields.past (by rw [same]; rfl) (walk.pure trivial)
  · exact Yields.provided _ _ fun _ => Yields.past (by rw [same]; rfl) (walk.pure trivial)
  · refine Yields.provided _ _ fun _ => Yields.past (by rw [same]; rfl) ?_
    refine walk.sequence walk.atStatementEnd? fun ended => ?_
    cases ended with
    | true => exact walk.pure trivial
    | false => exact walk.sequence (walk.testList depth) fun _ => walk.pure trivial
  · refine Yields.past (by rw [same]; rfl) ?_
    refine walk.sequence walk.atStatementEnd? fun ended => ?_
    cases ended with
    | true => exact walk.pure trivial
    | false => exact walk.sequence tested fun _ => walk.pure trivial
  · refine Yields.past (by rw [same]; rfl) ?_
    refine walk.sequence tested fun test => ?_
    refine walk.sequence (walk.eat .comma) fun comma => ?_
    cases comma with
    | true => exact walk.sequence tested fun _ => walk.pure trivial
    | false => exact walk.pure trivial
  · exact Yields.fail _
  · obtain ⟨next, steps, ensures⟩ := walk.expressionStatement_steps depth start.line around
    rw [steps]
    exact (testList depth).bind (fun first => (ensures first).along) start

end Consumes

end Stepwise.Script
