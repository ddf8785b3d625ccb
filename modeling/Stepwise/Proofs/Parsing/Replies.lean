import Stepwise.Proofs.Parsing.Progress
import Stepwise.Proofs.Writing.Written

/-!
Readers that reply.

A reader replies if it does not run out of depth, be it with an answer or with a syntax error.  How deep
reading can go depends on how many tokens there is room for: a level hands a token down the ladder at
most once, and every loop passes a token before its next turn.
-/

namespace Stepwise.Script

/-- From a cursor on, the reader answers or finds a syntax error. -/
def RepliesAt {α : Type} (start : Cursor) (parser : Parser α) : Prop :=
  ∃ outcome, (parser start).run = some outcome

/-- The reader replies wherever at most so many tokens are ahead, the end of the input among them. -/
def Replies {α : Type} (room : Nat) (parser : Parser α) : Prop :=
  ∀ start : Cursor, start.Ended → start.tokens.length ≤ room → RepliesAt start parser

section

variable {α β : Type} {parser : Parser α} {next : α → Parser β} {room : Nat} {start : Cursor}

namespace RepliesAt

theorem pure (answer : α) : RepliesAt start (Pure.pure answer) := ⟨.ok (answer, start), rfl⟩

theorem throw (error : SyntaxError) : RepliesAt start (MonadExcept.throw error : Parser α) :=
  ⟨.error error, rfl⟩

theorem fail (problem : SyntaxProblem) : RepliesAt start (Parser.fail problem : Parser α) :=
  ⟨_, rfl⟩

theorem bind {expected : α → Cursor → Prop} (first : RepliesAt start parser)
    (yields : Yields start parser expected)
    (rest : ∀ answer middle, expected answer middle → RepliesAt middle (next answer)) :
    RepliesAt start (parser >>= next) := by
  have steps : (parser >>= next) start = parser start >>= fun read => next read.1 read.2 := rfl
  obtain ⟨outcome, ran⟩ := first
  rw [RepliesAt, steps, ExceptT.run_bind, ran]
  cases outcome with
  | error error => exact ⟨.error error, rfl⟩
  | ok read => exact rest read.1 read.2 (yields read.1 read.2 ran)

theorem answer (replies : RepliesAt start parser) (change : α → β) :
    RepliesAt start (do return change (← parser)) :=
  have anything : Yields start parser fun _ _ => True := fun _ _ _ => trivial
  bind replies anything fun _ _ _ => pure _

theorem stop (problem : SyntaxProblem) : RepliesAt start (Parser.fail problem >>= next) := ⟨_, rfl⟩

theorem peek {next : TokenKind → Parser β} (rest : RepliesAt start (next start.kind)) :
    RepliesAt start (Parser.peek >>= next) := rest

theorem line {next : Nat → Parser β} (rest : RepliesAt start (next start.line)) :
    RepliesAt start (Parser.line >>= next) := rest

theorem advance {next : Unit → Parser β} (ended : start.Ended)
    (enough : start.tokens.length ≤ room + 1) (inside : start.kind ≠ .endOfInput)
    (rest : Replies room (next ())) : RepliesAt start (Parser.advance >>= next) := by
  have forward := ended.next_forward inside
  exact rest start.next forward.ended (Nat.le_of_lt_succ (Nat.lt_of_lt_of_le forward.fewer enough))

end RepliesAt

namespace Progresses

theorem targetList {expr : Level → Parser Expr} (progresses : ∀ level, Progresses (expr level))
    (allowed line : Nat) : Progresses (Script.targetList allowed expr line) := by
  refine (progresses .sum).bind fun first => ?_
  refine onward.sequence (onward.at? .comma) fun several => ?_
  cases several with
  | false => exact onward.asTarget line _
  | true =>
      have stops := onward.atWord? .inWord
      exact onward.sequence (onward.afterCommas stops (progresses .sum).along allowed) fun rest =>
        onward.asTarget line _

end Progresses

namespace Replies

theorem nowhere : Replies 0 parser := by
  intro start ended enough
  exact absurd ended.length_pos (Nat.not_lt.mpr enough)

theorem mono {more : Nat} (replies : Replies more parser) (fewer : room ≤ more) :
    Replies room parser :=
  fun start ended enough => replies start ended (Nat.le_trans enough fewer)

theorem pure (answer : α) : Replies room (Pure.pure answer) := fun _ _ _ => .pure answer

theorem throw (error : SyntaxError) : Replies room (MonadExcept.throw error : Parser α) :=
  fun _ _ _ => .throw error

theorem fail (problem : SyntaxProblem) : Replies room (Parser.fail problem : Parser α) :=
  fun _ _ _ => .fail problem

theorem bind (first : Replies room parser) (along : onward.Along parser)
    (rest : ∀ answer, Replies room (next answer)) : Replies room (parser >>= next) :=
  fun start ended enough => .bind (first start ended enough) (.onward along ended)
    fun answer middle onward =>
      rest answer middle onward.ended (Nat.le_trans onward.length_le enough)

/-- What follows a reader that passes a token has room for one token less. -/
theorem past (first : Replies (room + 1) parser) (progresses : Progresses parser)
    (rest : ∀ answer, Replies room (next answer)) : Replies (room + 1) (parser >>= next) :=
  fun start ended enough => .bind (first start ended enough) (progresses start ended)
    fun answer middle forward => rest answer middle forward.ended
      (Nat.le_of_lt_succ (Nat.lt_of_lt_of_le forward.fewer enough))

theorem answer (replies : Replies room parser) (change : α → β) :
    Replies room (do return change (← parser)) :=
  fun start ended enough => (replies start ended enough).answer change

theorem map (replies : Replies room parser) (change : α → β) : Replies room (change <$> parser) := by
  rw [map_eq_pure_bind]
  exact replies.answer change

theorem get {next : Cursor → Parser β} (rest : ∀ cursor, Replies room (next cursor)) :
    Replies room (MonadState.get >>= next) :=
  fun start ended enough => rest start start ended enough

theorem peek {next : TokenKind → Parser β} (rest : ∀ kind, Replies room (next kind)) :
    Replies room (Parser.peek >>= next) :=
  fun start ended enough => rest start.kind start ended enough

theorem line {next : Nat → Parser β} (rest : ∀ line, Replies room (next line)) :
    Replies room (Parser.line >>= next) :=
  fun start ended enough => rest start.line start ended enough

theorem advance {next : Unit → Parser β} (rest : Replies room (next ())) :
    Replies room (Parser.advance >>= next) :=
  fun start ended enough => rest start.next ended.next.ended
    (Nat.le_trans ended.next.length_le enough)

theorem at? {next : Bool → Parser β} (symbol : Symbol) (rest : ∀ found, Replies room (next found)) :
    Replies room (Parser.at? symbol >>= next) :=
  fun start ended enough => rest _ start ended enough

theorem atWord? {next : Bool → Parser β} (keyword : Keyword)
    (rest : ∀ found, Replies room (next found)) : Replies room (Parser.atWord? keyword >>= next) :=
  fun start ended enough => rest _ start ended enough

theorem found (test : TokenKind → Bool) : Replies room (Parser.eatIf test) := by
  refine peek fun kind => ?_
  cases test kind with
  | true => exact advance (pure true)
  | false => exact pure false

theorem eatIf {next : Bool → Parser β} (test : TokenKind → Bool)
    (rest : ∀ found, Replies room (next found)) : Replies room (Parser.eatIf test >>= next) :=
  bind (found test) (onward.eatIf test) rest

theorem eaten {next : Bool → Parser β} {test : TokenKind → Bool} (marks : test .endOfInput = false)
    (eaten : Replies room (next true)) (left : Replies (room + 1) (next false)) :
    Replies (room + 1) (Parser.eatIf test >>= next) := by
  intro start ended enough
  cases isFound : test start.kind with
  | true =>
      have inside : start.kind ≠ .endOfInput := by
        intro same
        rw [same, marks] at isFound
        cases isFound
      have forward := ended.next_forward inside
      have yields : Yields start (Parser.eatIf test) fun found finish =>
          found = true ∧ finish = start.next := by
        refine .peek ?_
        rw [isFound]
        exact .advance (.pure ⟨rfl, rfl⟩)
      refine .bind (found test start ended enough) yields ?_
      rintro _ _ ⟨rfl, rfl⟩
      exact eaten start.next forward.ended
        (Nat.le_of_lt_succ (Nat.lt_of_lt_of_le forward.fewer enough))
  | false =>
      have yields : Yields start (Parser.eatIf test) fun found finish =>
          found = false ∧ finish = start := by
        refine .peek ?_
        rw [isFound]
        exact .pure ⟨rfl, rfl⟩
      refine .bind (found test start ended enough) yields ?_
      rintro _ _ ⟨rfl, same⟩
      exact same ▸ left start ended enough

theorem stop (problem : SyntaxProblem) : Replies room (Parser.fail problem >>= next) :=
  fun _ _ _ => .stop problem

theorem provided {next : Unit → Parser β} (condition : Bool) (problem : SyntaxProblem)
    (rest : Replies room (next ())) :
    Replies room (if condition = true then next () else Parser.fail problem >>= next) := by
  cases condition with
  | true => exact rest
  | false => exact stop problem

theorem barring {next : Unit → Parser β} (condition : Bool) (problem : SyntaxProblem)
    (rest : Replies room (next ())) :
    Replies room (if condition = true then Parser.fail problem >>= next else next ()) := by
  cases condition with
  | true => exact stop problem
  | false => exact rest

theorem expect {next : Unit → Parser β} (symbol : Symbol) (what : String)
    (rest : Replies room (next ())) : Replies room (Parser.expect symbol what >>= next) := by
  refine bind ?_ (onward.expect symbol what) fun _ => rest
  refine eatIf _ fun found => ?_
  cases found with
  | true => exact pure ()
  | false => exact fail _

theorem closes (symbol : Symbol) (what : String) (built : α) :
    Replies room (do Parser.expect symbol what; return built) :=
  expect symbol what (pure built)

theorem name (what : String) : Replies room (Parser.expectName what) := by
  refine peek fun kind => ?_
  split
  · exact advance (pure _)
  · exact fail _

theorem atStatementEnd? {next : Bool → Parser β} (rest : ∀ found, Replies room (next found)) :
    Replies room (Parser.atStatementEnd? >>= next) := by
  refine bind (peek fun kind => ?_) onward.atStatementEnd? rest
  split <;> exact pure _

theorem optional {next : Option α → Parser β} (omitted : Bool) (replies : Replies room parser)
    (along : onward.Along parser) (rest : ∀ found, Replies room (next found)) :
    Replies room
      (if omitted = true then Pure.pure none >>= next else some <$> parser >>= next) := by
  cases omitted with
  | true => exact rest none
  | false => exact bind (replies.map some) (onward.map some along) rest

theorem skip {next : Unit → Parser β} (present : Bool) (replies : Replies room parser)
    (along : onward.Along parser) (rest : Replies room (next ())) :
    Replies room (if present = true then discard parser >>= next else next ()) := by
  cases present with
  | true => exact bind (replies.map _) (onward.map _ along) fun _ => rest
  | false => exact rest

/-- A loop whose turns pass tokens needs no more turns than there are tokens. -/
theorem collect {step : Parser (Option α)} (replies : Replies room step) (turns : Turns step)
    {allowed : Nat} (enough : room ≤ allowed) : Replies room (Parser.collect allowed step) := by
  induction allowed generalizing room with
  | zero =>
      obtain rfl := Nat.le_zero.mp enough
      exact nowhere
  | succ allowed inductionHypothesis =>
      intro start ended within
      refine .bind (replies start ended within) (turns start ended) fun found middle passes => ?_
      cases found with
      | none => exact .pure []
      | some item =>
          have forward := passes.2 rfl
          have fewer := Nat.le_sub_one_of_lt (Nat.lt_of_lt_of_le forward.fewer within)
          have further := inductionHypothesis (replies.mono (Nat.sub_le room 1))
            (Nat.sub_le_of_le_add enough)
          exact (further middle forward.ended fewer).answer _

theorem afterCommas {ended : Parser Bool} (stops : Replies room ended) (goesOn : onward.Along ended)
    (replies : Replies room parser) (progresses : Progresses parser) {allowed : Nat}
    (enough : room ≤ allowed) : Replies room (Parser.afterCommas allowed ended parser) := by
  refine collect ?_ ?_ enough
  · refine eatIf _ fun comma => ?_
    cases comma with
    | false => exact pure none
    | true =>
        refine bind stops goesOn fun stop => ?_
        cases stop with
        | true => exact pure none
        | false => exact replies.answer some
  · refine Turns.after (onward.eat .comma) fun comma => ?_
    cases comma with
    | false => exact .done
    | true =>
        refine Turns.after goesOn fun stop => ?_
        cases stop with
        | true => exact .done
        | false => exact .item progresses id

theorem asTarget (line : Nat) (expr : Expr) : Replies room (Script.asTarget line expr) := by
  unfold Script.asTarget
  split
  · exact pure _
  · exact throw _

theorem leftChain {operand : Parser Expr} (replies : Replies (room + 1) operand)
    (progresses : Progresses operand) (operator? : TokenKind → Option α)
    (build : α → Expr → Expr → Expr) {allowed : Nat} (enough : room ≤ allowed) :
    Replies (room + 1) (Script.leftChain allowed operator? operand build) := by
  refine replies.past progresses fun first => answer (collect ?_ ?_ enough) _
  · refine peek fun kind => ?_
    split
    · exact pure none
    · exact advance ((replies.mono (Nat.le_succ room)).answer _)
  · refine Turns.after onward.peek fun kind => ?_
    split
    · exact .done
    · exact Turns.after onward.advance fun _ => .item progresses _

theorem comparisonLinks {operand : Parser Expr} (replies : Replies room operand)
    (progresses : Progresses operand) {allowed : Nat} (enough : room ≤ allowed) :
    Replies room (Script.comparisonLinks allowed operand) := by
  refine collect ?_ ?_ enough
  · refine get fun cursor => ?_
    split
    · exact pure none
    · rename_i op double found
      refine advance ?_
      cases double with
      | false => exact replies.answer _
      | true => exact advance (replies.answer _)
  · refine Turns.after onward.get fun cursor => ?_
    split
    · exact .done
    · rename_i op double found
      refine Turns.after onward.advance fun _ => ?_
      cases double with
      | false => exact .item progresses _
      | true => exact Turns.after onward.advance fun _ => .item progresses _

section

variable {expr : Level → Parser Expr} (progresses : ∀ level, Progresses (expr level))
  (replies : ∀ level, Replies room (expr level)) {allowed : Nat} (enough : room ≤ allowed)

include progresses replies enough

theorem targetList (line : Nat) : Replies room (Script.targetList allowed expr line) := by
  refine (replies .sum).bind (progresses .sum).along fun first => ?_
  refine at? .comma fun several => ?_
  cases several with
  | false => exact asTarget line first
  | true =>
      have stops : Replies room (Parser.atWord? .inWord) := peek fun _ => pure _
      have rest := afterCommas stops (onward.atWord? .inWord) (replies .sum) (progresses .sum) enough
      have along := onward.afterCommas (onward.atWord? .inWord) (progresses .sum).along allowed
      exact rest.bind along fun rest => asTarget line _

theorem clauses : Replies room (Script.clauses allowed expr) := by
  have along := fun level => (progresses level).along
  refine collect ?_ ?_ enough
  · refine eatIf _ fun found => ?_
    cases found with
    | false => exact pure none
    | true =>
        refine line fun line => ?_
        refine (targetList progresses replies enough line).bind (onward.targetList along allowed line)
          fun target => ?_
        refine eatIf _ fun found => ?_
        refine provided found _ ?_
        refine (replies .disjunction).bind (along .disjunction) fun iterable => ?_
        refine answer (collect ?_ ?_ enough) _
        · refine eatIf _ fun found => ?_
          cases found with
          | false => exact pure none
          | true => exact (replies .disjunction).answer some
        · refine Turns.after (onward.eatWord .ifWord) fun found => ?_
          cases found with
          | false => exact .done
          | true => exact .item (progresses .disjunction) id
  · refine Turns.after (onward.eatWord .forWord) fun found => ?_
    cases found with
    | false => exact .done
    | true =>
        refine Turns.after onward.line fun line => Progresses.turns ?_
        refine (Progresses.targetList progresses allowed line).bind fun target => ?_
        refine onward.sequence (onward.eatWord .inWord) fun found => ?_
        refine onward.provided _ _ fun _ => ?_
        refine onward.sequence (along .disjunction) fun iterable => ?_
        refine onward.sequence (onward.collect_along ?_ allowed) fun _ => onward.pure trivial
        refine onward.sequence (onward.eatWord .ifWord) fun found => ?_
        cases found with
        | false => exact onward.pure trivial
        | true => exact onward.sequence (along .disjunction) fun _ => onward.pure trivial

theorem arguments (named : Bool) : Replies room (Script.arguments expr allowed named) := by
  have along := fun level => (progresses level).along
  induction allowed generalizing room named with
  | zero => exact (Nat.le_zero.mp enough).symm ▸ nowhere
  | succ allowed inductionHypothesis =>
      cases room with
      | zero => exact nowhere
      | succ room =>
          have fewer := fun level => (replies level).mono (Nat.le_succ room)
          have inside := Nat.le_of_succ_le_succ enough
          have more : ∀ named (argument : Argument), Replies room (do
              return argument :: (← Script.arguments expr allowed named)) := fun named argument =>
            (inductionHypothesis fewer inside named).answer _
          refine eatIf _ fun closed => ?_
          cases closed with
          | true => exact pure []
          | false =>
              refine get fun cursor => ?_
              split
              · exact fail _
              · split
                · refine advance (advance ?_)
                  refine (replies .conditional).past (progresses .conditional) fun value => ?_
                  refine eatIf _ fun comma => ?_
                  split
                  · exact more true _
                  · exact closes _ _ _
                · refine barring _ _ ?_
                  refine (replies .conditional).past (progresses .conditional) fun value => ?_
                  refine atWord? .forWord fun comprehends => ?_
                  split
                  · have read := clauses progresses fewer inside
                    exact read.bind (onward.clauses along allowed) fun _ => closes _ _ _
                  · refine eatIf _ fun comma => ?_
                    split
                    · exact more named _
                    · exact closes _ _ _

theorem subscript (object : Expr) : Replies room (Script.subscript allowed expr object) := by
  have bound := replies .conditional
  have along := (progresses .conditional).along
  refine at? .colon fun omitted => ?_
  refine optional omitted bound along fun lower => ?_
  refine eatIf _ fun sliced => ?_
  cases sliced with
  | true =>
      refine at? .colon fun omitted => at? .rightBracket fun ended => ?_
      refine optional (omitted || ended) bound along fun upper => ?_
      refine eatIf _ fun stepped => ?_
      cases stepped with
      | true =>
          refine at? .rightBracket fun omitted => ?_
          exact optional omitted bound along fun step => closes _ _ _
      | false => exact closes _ _ _
  | false =>
      cases lower with
      | none => exact fail _
      | some first =>
          refine at? .comma fun several => ?_
          cases several with
          | true =>
              have stops : Replies room (Parser.at? .rightBracket) := peek fun _ => pure _
              have rest := afterCommas stops (onward.at? .rightBracket) bound
                (progresses .conditional) enough
              have along := onward.afterCommas (onward.at? .rightBracket) along allowed
              exact rest.bind along fun _ => closes _ _ _
          | false => exact closes _ _ _

theorem trailers (object : Expr) : Replies room (Script.trailers expr allowed object) := by
  have along := fun level => (progresses level).along
  induction allowed generalizing room object with
  | zero => exact (Nat.le_zero.mp enough).symm ▸ nowhere
  | succ allowed inductionHypothesis =>
      cases room with
      | zero => exact nowhere
      | succ room =>
          have fewer := fun level => (replies level).mono (Nat.le_succ room)
          have inside := Nat.le_of_succ_le_succ enough
          have more := inductionHypothesis fewer inside
          have called := arguments progresses fewer inside false
          have goesOn := onward.arguments along allowed false
          refine eaten rfl (called.bind goesOn fun _ => more _) ?_
          refine eaten rfl ?_ ?_
          · have indexed := subscript progresses fewer inside object
            exact indexed.bind (onward.subscript along allowed object) fun _ => more _
          · refine eaten rfl ?_ (pure object)
            refine (name "attribute name").bind (onward.expectName _) fun name => ?_
            refine eatIf _ fun found => ?_
            split
            · exact called.bind goesOn fun _ => more _
            · exact more _

theorem entries : Replies room (Script.entries expr allowed) := by
  induction allowed generalizing room with
  | zero => exact (Nat.le_zero.mp enough).symm ▸ nowhere
  | succ allowed inductionHypothesis =>
      cases room with
      | zero => exact nowhere
      | succ room =>
          have fewer := fun level => (replies level).mono (Nat.le_succ room)
          have more := inductionHypothesis fewer (Nat.le_of_succ_le_succ enough)
          refine eatIf _ fun closed => ?_
          split
          · exact pure []
          · refine (replies .conditional).past (progresses .conditional) fun key => ?_
            refine eatIf _ fun found => provided found _ ?_
            refine (fewer .conditional).bind (progresses .conditional).along fun value => ?_
            refine eatIf _ fun comma => ?_
            split
            · exact more.answer _
            · exact closes _ _ _

theorem bracketed (close : Symbol) (what : String) (build : List Expr → Expr)
    (single : Expr → Expr) :
    Replies room (Script.bracketed allowed expr close what build single) := by
  have along := fun level => (progresses level).along
  refine eatIf _ fun closed => ?_
  split
  · exact pure _
  · refine (replies .conditional).bind (along .conditional) fun first => ?_
    refine atWord? .forWord fun comprehends => ?_
    split
    · have read := clauses progresses replies enough
      exact read.bind (onward.clauses along allowed) fun _ => closes _ _ _
    · refine at? .comma fun several => ?_
      split
      · have stops : Replies room (Parser.at? close) := peek fun _ => pure _
        have rest := afterCommas stops (onward.at? close) (replies .conditional)
          (progresses .conditional) enough
        have along := onward.afterCommas (onward.at? close) (along .conditional) allowed
        exact rest.bind along fun _ => closes _ _ _
      · exact closes _ _ _

theorem atom : Replies (room + 1) (Script.atom allowed expr) := by
  intro start ended within
  have literal : ∀ expr : Expr, RepliesAt start (do Parser.advance; return expr) :=
    fun expr => advance (pure expr) start ended within
  refine .peek ?_
  split <;> rename_i same
  · exact literal _
  · exact literal _
  · refine .advance ended within (by rw [same]; nofun) (answer (collect ?_ ?_ enough) _)
    · refine peek fun kind => ?_
      split
      · exact advance (pure _)
      · exact pure none
    · intro start ended
      refine .peek ?_
      split <;> rename_i same
      · have inside : start.kind ≠ .endOfInput := by rw [same]; nofun
        have forward := ended.next_forward inside
        exact .advance (.pure ⟨forward.toOnward, fun _ => forward⟩)
      · exact .pure ⟨.refl ended, nofun⟩
  · exact literal _
  · exact literal _
  · exact literal _
  · exact literal _
  · exact .advance ended within (by rw [same]; nofun) (bracketed progresses replies enough _ _ _ _)
  · exact .advance ended within (by rw [same]; nofun) (bracketed progresses replies enough _ _ _ _)
  · exact .advance ended within (by rw [same]; nofun) ((entries progresses replies enough).answer _)
  · exact .fail _

theorem rule (level : Level)
    (tighter : ∀ other : Level, other.height < level.height → Replies (room + 1) (expr other)) :
    Replies (room + 1) (Script.rule allowed expr level) := by
  have along := fun level => (progresses level).along
  cases level with
  | conditional =>
      refine (tighter .disjunction (by decide)).past (progresses .disjunction) fun body => ?_
      refine eatIf _ fun found => ?_
      split
      · refine (replies .disjunction).bind (along .disjunction) fun test => ?_
        refine eatIf _ fun found => ?_
        split
        · exact (replies .conditional).answer _
        · exact stop _
      · exact pure body
  | disjunction =>
      exact leftChain (tighter .conjunction (by decide)) (progresses .conjunction) _ _ enough
  | conjunction =>
      exact leftChain (tighter .negation (by decide)) (progresses .negation) _ _ enough
  | negation =>
      exact eaten rfl ((replies .negation).answer _) (tighter .comparison (by decide))
  | comparison =>
      refine (tighter .sum (by decide)).past (progresses .sum) fun left => ?_
      refine (comparisonLinks (replies .sum) (progresses .sum) enough).bind
        (onward.comparisonLinks (along .sum) allowed) fun links => ?_
      split <;> exact pure _
  | sum => exact leftChain (tighter .term (by decide)) (progresses .term) _ _ enough
  | term => exact leftChain (tighter .factor (by decide)) (progresses .factor) _ _ enough
  | factor =>
      intro start ended within
      refine .peek ?_
      split
      · rename_i op found
        refine .advance ended within ?_ ((replies .factor).answer _)
        intro same
        rw [same] at found
        cases found
      · exact tighter .power (by decide) start ended within
  | power =>
      refine (tighter .trailer (by decide)).past (progresses .trailer) fun base => ?_
      refine eatIf _ fun found => ?_
      split
      · exact (replies .factor).answer _
      · exact pure base
  | trailer =>
      refine (tighter .atom (by decide)).past (progresses .atom) fun base => ?_
      exact trailers progresses replies enough base
  | atom => exact atom progresses replies enough

end

/-- Reading an expression of a level goes down the ladder once for every token at the most. -/
theorem expressionAt {depth : Nat} {level : Level} (enough : 16 * room + level.height < depth) :
    Replies room (Script.expressionAt depth level) := by
  induction depth generalizing room level with
  | zero => exact absurd enough (Nat.not_lt_zero _)
  | succ depth inductionHypothesis =>
      cases room with
      | zero => exact nowhere
      | succ room =>
          have height := Level.height_le_conditional
          refine rule (Progresses.expressionAt depth) (fun other => ?_) (by omega) level
            fun other lower => ?_
          · exact inductionHypothesis (by have := height other; simp only [Level.height] at *; omega)
          · exact inductionHypothesis (by omega)

theorem expression {depth : Nat} (enough : 16 * room + 10 < depth) (level : Level) :
    Replies room (Script.expressionAt depth level) :=
  expressionAt (Nat.lt_of_le_of_lt (Nat.add_le_add_left level.height_le_conditional _) enough)

theorem tupleItems {depth allowed : Nat} (enough : 16 * room + 10 < depth) (turns : room ≤ allowed) :
    Replies room (Parser.afterCommas allowed
      (do return (← Parser.atStatementEnd?) || (← Parser.at? .assign))
      (Script.expressionAt depth .conditional)) := by
  refine afterCommas (atStatementEnd? fun _ => ?_) ?_ (expression enough _)
    (Progresses.expressionAt depth _) turns
  · exact at? .assign fun _ => pure _
  · refine onward.sequence onward.atStatementEnd? fun _ => ?_
    exact onward.sequence (onward.at? .assign) fun _ => onward.pure trivial

theorem testList {depth : Nat} (enough : 16 * room + 10 < depth) :
    Replies room (Script.testList depth) := by
  refine (expression enough _).bind (Progresses.expressionAt depth _).along fun first => ?_
  refine at? .comma fun several => ?_
  split
  · exact (tupleItems enough (by omega)).answer _
  · exact pure first

end Replies

end

end Stepwise.Script
