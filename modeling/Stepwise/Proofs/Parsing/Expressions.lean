import Stepwise.Proofs.Parsing.Basic

/-!
Expression readers keep to every walk.

They go past tokens and change nothing else of the cursor.
-/

namespace Stepwise.Script.Walk

variable {α : Type} (walk : Walk)

theorem asTarget (line : Nat) (expr : Expr) : walk.Along (Script.asTarget line expr) := by
  unfold Script.asTarget
  split
  · exact walk.pure trivial
  · exact walk.throw _

theorem leftChain {operand : Parser Expr} (along : walk.Along operand) (depth : Nat)
    (operator? : TokenKind → Option α) (build : α → Expr → Expr → Expr) :
    walk.Along (Script.leftChain depth operator? operand build) := by
  refine walk.sequence along fun first => ?_
  refine walk.sequence (walk.collect_along ?_ depth) fun links => walk.pure trivial
  refine walk.sequence walk.peek fun kind => ?_
  split
  · exact walk.pure trivial
  · refine walk.sequence walk.advance fun _ => ?_
    exact walk.sequence along fun _ => walk.pure trivial

theorem comparisonLinks {operand : Parser Expr} (along : walk.Along operand) (depth : Nat) :
    walk.Along (Script.comparisonLinks depth operand) := by
  refine walk.collect_along ?_ depth
  refine walk.sequence walk.get fun cursor => ?_
  split
  · exact walk.pure trivial
  · rename_i op double found
    refine walk.sequence walk.advance fun _ => ?_
    cases double with
    | false => exact walk.sequence along fun _ => walk.pure trivial
    | true =>
        refine walk.sequence walk.advance fun _ => ?_
        exact walk.sequence along fun _ => walk.pure trivial

section

variable {expr : Level → Parser Expr} (along : ∀ level, walk.Along (expr level))

include along

theorem targetList (depth line : Nat) : walk.Along (Script.targetList depth expr line) := by
  refine walk.sequence (along .sum) fun first => ?_
  refine walk.sequence (walk.at? .comma) fun several => ?_
  cases several with
  | false => exact walk.asTarget line _
  | true =>
      refine walk.sequence (walk.afterCommas (walk.atWord? .inWord) (along .sum) depth) fun rest => ?_
      exact walk.asTarget line _

theorem clauses (depth : Nat) : walk.Along (Script.clauses depth expr) := by
  have condition : walk.Along (do
      if ← Parser.eatWord .ifWord then return some (← expr .disjunction) else return none) := by
    refine walk.sequence (walk.eatWord .ifWord) fun found => ?_
    cases found with
    | false => exact walk.pure trivial
    | true => exact walk.sequence (along .disjunction) fun _ => walk.pure trivial
  refine walk.collect_along ?_ depth
  refine walk.sequence (walk.eatWord .forWord) fun found => ?_
  cases found with
  | false => exact walk.pure trivial
  | true =>
      refine walk.sequence walk.line fun line => ?_
      refine walk.sequence (walk.targetList along depth line) fun target => ?_
      refine walk.sequence (walk.eatWord .inWord) fun found => ?_
      cases found with
      | false => exact walk.stop _
      | true =>
          refine walk.sequence (along .disjunction) fun iterable => ?_
          exact walk.sequence (walk.collect_along condition depth) fun _ => walk.pure trivial

theorem arguments (depth : Nat) (named : Bool) :
    walk.Along (Script.arguments expr depth named) := by
  induction depth generalizing named with
  | zero => exact walk.outOfDepth
  | succ depth inductionHypothesis =>
      have more : ∀ named (argument : Argument), walk.Along (do
          return argument :: (← Script.arguments expr depth named)) := by
        intro named argument
        exact walk.sequence (inductionHypothesis named) fun _ => walk.pure trivial
      refine walk.sequence (walk.eat .rightParen) fun closed => ?_
      cases closed with
      | true => exact walk.pure trivial
      | false =>
          refine walk.sequence walk.get fun cursor => ?_
          split
          · exact walk.fail _
          · split
            · refine walk.sequence walk.advance fun _ => ?_
              refine walk.sequence walk.advance fun _ => ?_
              refine walk.sequence (along .conditional) fun value => ?_
              refine walk.sequence (walk.eat .comma) fun comma => ?_
              split
              · exact more true _
              · exact walk.closes _ _ _
            · have value : walk.Along (do
                  let value ← expr .conditional
                  if ← Parser.atWord? .forWord then
                    let clauses ← Script.clauses depth expr
                    Parser.expect .rightParen "')'"
                    return [Argument.positional (.comprehension value clauses)]
                  if ← Parser.eat .comma then
                    return .positional value :: (← Script.arguments expr depth named)
                  Parser.expect .rightParen "')'"
                  return [.positional value]) := by
                refine walk.sequence (along .conditional) fun value => ?_
                refine walk.sequence (walk.atWord? .forWord) fun comprehends => ?_
                split
                · exact walk.sequence (walk.clauses along depth) fun _ => walk.closes _ _ _
                · refine walk.sequence (walk.eat .comma) fun comma => ?_
                  split
                  · exact more named _
                  · exact walk.closes _ _ _
              split
              · exact walk.stop _
              · exact value

theorem subscript (depth : Nat) (object : Expr) :
    walk.Along (Script.subscript depth expr object) := by
  have bound := along .conditional
  refine walk.sequence (walk.at? .colon) fun omitted => ?_
  refine walk.optional omitted bound fun lower => ?_
  refine walk.sequence (walk.eat .colon) fun sliced => ?_
  cases sliced with
  | true =>
      refine walk.sequence (walk.at? .colon) fun omitted => ?_
      refine walk.sequence (walk.at? .rightBracket) fun ended => ?_
      refine walk.optional (omitted || ended) bound fun upper => ?_
      refine walk.sequence (walk.eat .colon) fun stepped => ?_
      cases stepped with
      | true =>
          refine walk.sequence (walk.at? .rightBracket) fun omitted => ?_
          exact walk.optional omitted bound fun step => walk.closes _ _ _
      | false => exact walk.closes _ _ _
  | false =>
      cases lower with
      | none => exact walk.fail _
      | some first =>
          refine walk.sequence (walk.at? .comma) fun several => ?_
          cases several with
          | true =>
              have rest := walk.afterCommas (walk.at? .rightBracket) bound depth
              exact walk.sequence rest fun _ => walk.closes _ _ _
          | false => exact walk.closes _ _ _

theorem trailers (depth : Nat) (object : Expr) : walk.Along (Script.trailers expr depth object) := by
  induction depth generalizing object with
  | zero => exact walk.outOfDepth
  | succ depth inductionHypothesis =>
      refine walk.sequence (walk.eat .leftParen) fun called => ?_
      split
      · exact walk.sequence (walk.arguments along depth false) fun _ => inductionHypothesis _
      · refine walk.sequence (walk.eat .leftBracket) fun indexed => ?_
        split
        · exact walk.sequence (walk.subscript along depth object) fun _ => inductionHypothesis _
        · refine walk.sequence (walk.eat .dot) fun dotted => ?_
          split
          · refine walk.sequence (walk.expectName _) fun name => ?_
            refine walk.sequence (walk.eat .leftParen) fun called => ?_
            split
            · exact walk.sequence (walk.arguments along depth false) fun _ => inductionHypothesis _
            · exact inductionHypothesis _
          · exact walk.pure trivial

theorem entries (depth : Nat) : walk.Along (Script.entries expr depth) := by
  induction depth with
  | zero => exact walk.outOfDepth
  | succ depth inductionHypothesis =>
      refine walk.sequence (walk.eat .rightBrace) fun closed => ?_
      split
      · exact walk.pure trivial
      · refine walk.sequence (along .conditional) fun key => ?_
        refine walk.sequence (walk.eat .colon) fun found => ?_
        split
        · refine walk.sequence (along .conditional) fun value => ?_
          refine walk.sequence (walk.eat .comma) fun comma => ?_
          split
          · exact walk.sequence inductionHypothesis fun _ => walk.pure trivial
          · exact walk.sequence (walk.expect _ _) fun _ => walk.pure trivial
        · exact walk.stop _

theorem bracketed (depth : Nat) (close : Symbol) (what : String) (build : List Expr → Expr)
    (single : Expr → Expr) : walk.Along (Script.bracketed depth expr close what build single) := by
  refine walk.sequence (walk.eat close) fun closed => ?_
  split
  · exact walk.pure trivial
  · refine walk.sequence (along .conditional) fun first => ?_
    refine walk.sequence (walk.atWord? .forWord) fun comprehends => ?_
    split
    · exact walk.sequence (walk.clauses along depth) fun _ => walk.closes _ _ _
    · refine walk.sequence (walk.at? .comma) fun several => ?_
      split
      · exact walk.sequence (walk.afterCommas (walk.at? close) (along .conditional) depth)
          fun _ => walk.closes _ _ _
      · exact walk.closes _ _ _

theorem atom (depth : Nat) : walk.Along (Script.atom depth expr) := by
  have literal : ∀ expr : Expr, walk.Along (do Parser.advance; return expr) :=
    fun expr => walk.sequence walk.advance fun _ => walk.pure trivial
  refine walk.sequence walk.peek fun kind => ?_
  split
  · exact literal _
  · exact literal _
  · refine walk.sequence walk.advance fun _ => ?_
    refine walk.sequence (walk.collect_along ?_ depth) fun _ => walk.pure trivial
    refine walk.sequence walk.peek fun kind => ?_
    split
    · exact walk.sequence walk.advance fun _ => walk.pure trivial
    · exact walk.pure trivial
  · exact literal _
  · exact literal _
  · exact literal _
  · exact literal _
  · exact walk.sequence walk.advance fun _ => walk.bracketed along depth _ _ _ _
  · exact walk.sequence walk.advance fun _ => walk.bracketed along depth _ _ _ _
  · refine walk.sequence walk.advance fun _ => ?_
    exact walk.sequence (walk.entries along depth) fun _ => walk.pure trivial
  · exact walk.fail _

theorem rule (depth : Nat) (level : Level) : walk.Along (Script.rule depth expr level) := by
  cases level with
  | conditional =>
      refine walk.sequence (along .disjunction) fun body => ?_
      refine walk.sequence (walk.eatWord .ifWord) fun found => ?_
      split
      · refine walk.sequence (along .disjunction) fun test => ?_
        refine walk.sequence (walk.eatWord .elseWord) fun found => ?_
        split
        · exact walk.sequence (along .conditional) fun _ => walk.pure trivial
        · exact walk.stop _
      · exact walk.pure trivial
  | disjunction => exact walk.leftChain (along .conjunction) depth _ _
  | conjunction => exact walk.leftChain (along .negation) depth _ _
  | negation =>
      refine walk.sequence (walk.eatWord .notWord) fun found => ?_
      split
      · exact walk.sequence (along .negation) fun _ => walk.pure trivial
      · exact along .comparison
  | comparison =>
      refine walk.sequence (along .sum) fun left => ?_
      refine walk.sequence (walk.comparisonLinks (along .sum) depth) fun links => ?_
      split <;> exact walk.pure trivial
  | sum => exact walk.leftChain (along .term) depth _ _
  | term => exact walk.leftChain (along .factor) depth _ _
  | factor =>
      refine walk.sequence walk.peek fun kind => ?_
      split
      · refine walk.sequence walk.advance fun _ => ?_
        exact walk.sequence (along .factor) fun _ => walk.pure trivial
      · exact along .power
  | power =>
      refine walk.sequence (along .trailer) fun base => ?_
      refine walk.sequence (walk.eat .doubleStar) fun found => ?_
      split
      · exact walk.sequence (along .factor) fun _ => walk.pure trivial
      · exact walk.pure trivial
  | trailer => exact walk.sequence (along .atom) fun base => walk.trailers along depth base
  | atom => exact walk.atom along depth

end

theorem expressionAt (depth : Nat) (level : Level) :
    walk.Along (Script.expressionAt depth level) := by
  induction depth generalizing level with
  | zero => exact walk.outOfDepth
  | succ depth inductionHypothesis => exact walk.rule inductionHypothesis depth level

theorem testList (depth : Nat) : walk.Along (Script.testList depth) := by
  have along := walk.expressionAt depth .conditional
  refine walk.sequence along fun first => ?_
  refine walk.sequence (walk.at? .comma) fun several => ?_
  split
  · refine walk.sequence (walk.afterCommas ?_ along depth) fun rest => walk.pure trivial
    refine walk.sequence walk.atStatementEnd? fun ended => ?_
    exact walk.sequence (walk.at? .assign) fun _ => walk.pure trivial
  · exact walk.pure trivial

end Stepwise.Script.Walk
