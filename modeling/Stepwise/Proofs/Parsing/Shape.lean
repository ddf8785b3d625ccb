import Stepwise.Proofs.Parsing.Expressions

/-!
The shape of parsed programs.

`Shape` is the grammar of statements as a relation: it says which blocks a reader of statements can
come back with, and where statements are marked as sharing a line.
-/

namespace Stepwise.Script

/-- Whether a form can stand in a line of simple statements. -/
def Form.fits (around : Surroundings) : Form → Bool
  | .expr _ => true
  | .assign .. => true
  | .augment (.unpack _) .. => false
  | .augment .. => true
  | .breakLoop => around.inLoop
  | .continueLoop => around.inLoop
  | .pass => true
  | .giveBack _ => around.inFunction
  | .raise _ => true
  | .assert .. => true
  | .branch .. => false
  | .whileLoop .. => false
  | .forLoop .. => false
  | .define _ => false

inductive Part where
  /-- A line of simple statements, and whether it goes on a line that has begun. -/
  | simple (sameLine : Bool)
  /-- A line of simple statements of its own, or a compound statement. -/
  | line
  | lines
  | block
  /-- What follows the block of an `if`. -/
  | orelse

/-- The statements that can be read as a part of a program. -/
inductive Shape : Part → Surroundings → List Statement → Prop where
  | last {around : Surroundings} {sameLine : Bool} {form : Form} (line : Nat) :
      form.fits around = true → Shape (.simple sameLine) around [.mk line sameLine form]
  | semicolon {around : Surroundings} {sameLine : Bool} {form : Form} {rest : List Statement}
      (line : Nat) : form.fits around = true → Shape (.simple true) around rest →
      Shape (.simple sameLine) around (.mk line sameLine form :: rest)
  | simple {around : Surroundings} {statements : List Statement} :
      Shape (.simple false) around statements → Shape .line around statements
  | branch {around : Surroundings} {body orelse : List Statement} (line : Nat) (test : Expr) :
      Shape .block around body → Shape .orelse around orelse →
      Shape .line around [.mk line false (.branch test body orelse)]
  | whileLoop {around : Surroundings} {body : List Statement} (line : Nat) (test : Expr) :
      Shape .block { around with inLoop := true } body →
      Shape .line around [.mk line false (.whileLoop test body)]
  | forLoop {around : Surroundings} {body : List Statement} (line : Nat) (target : Target)
      (iterable : Expr) : Shape .block { around with inLoop := true } body →
      Shape .line around [.mk line false (.forLoop target iterable body)]
  | define {around : Surroundings} (line id : Nat) : around.inFunction = false →
      Shape .line around [.mk line false (.define id)]
  | ended {around : Surroundings} : Shape .lines around []
  | more {around : Surroundings} {first rest : List Statement} :
      Shape .line around first → Shape .lines around rest → Shape .lines around (first ++ rest)
  | inline {around : Surroundings} {body : List Statement} :
      Shape (.simple true) around body → Shape .block around body
  | indented {around : Surroundings} {body : List Statement} :
      Shape .lines around body → Shape .block around body
  | omitted {around : Surroundings} : Shape .orelse around []
  | elif {around : Surroundings} {orelse : List Statement} :
      Shape .line around orelse → Shape .orelse around orelse
  | otherwise {around : Surroundings} {orelse : List Statement} :
      Shape .block around orelse → Shape .orelse around orelse

/-- The body of a function is a block, without the string that documents it. -/
def Definition.Shaped (definition : Definition) : Prop :=
  ∃ body, Shape .block ⟨true, false⟩ body ∧ definition.body = stripDocumentation body

/-- Parameters have names of their own, and behind one with a default all have one. -/
structure Listed (parameters : List Parameter) : Prop where
  distinct : (parameters.map Parameter.name).Nodup
  defaults : parameters.Pairwise fun earlier later =>
    earlier.default.isSome → later.default.isSome

theorem Listed.nil : Listed [] := ⟨List.nodup_nil, .nil⟩

/-- One more parameter of a new name, which has a default or comes behind none that has. -/
theorem Listed.append {parameters : List Parameter} (listed : Listed parameters) {name : String}
    {default : Option Expr} (fresh : parameters.any (·.name == name) = false)
    (last : default.isSome = true ∨ parameters.any (·.default.isSome) = false) :
    Listed (parameters ++ [⟨name, default⟩]) := by
  refine ⟨?_, ?_⟩
  · rw [List.map_append]
    refine List.nodup_append.mpr ⟨listed.distinct, List.pairwise_singleton _ _, ?_⟩
    intro earlier member other inside same
    obtain ⟨parameter, inList, rfl⟩ := List.mem_map.mp member
    rw [List.mem_singleton.mp inside] at same
    exact List.any_eq_false.mp fresh parameter inList (beq_iff_eq.mpr same)
  · refine List.pairwise_append.mpr ⟨listed.defaults, List.pairwise_singleton _ _, ?_⟩
    intro earlier member later inside given
    rw [List.mem_singleton.mp inside]
    rcases last with last | none
    · exact last
    · exact absurd given (List.any_eq_false.mp none earlier member)

namespace Walk

variable {α β : Type} (walk : Walk)

theorem mapM {read : α → Parser β} (along : ∀ item, walk.Along (read item)) (items : List α) :
    walk.Along (items.mapM read) := by
  induction items with
  | nil => exact walk.pure trivial
  | cons item items inductionHypothesis =>
      rw [List.mapM_cons]
      refine walk.sequence (along item) fun _ => ?_
      exact walk.sequence inductionHypothesis fun _ => walk.pure trivial

/-- An expression statement starts with an expression, whatever follows it. -/
theorem expressionStatement_steps (depth line : Nat) (around : Surroundings) :
    ∃ next, Script.expressionStatement depth line = Script.testList depth >>= next ∧
      ∀ first, walk.Ensures (next first) fun form => form.fits around = true := by
  refine ⟨_, rfl, fun first => ?_⟩
  refine walk.sequence (walk.at? .assign) fun assigns => ?_
  cases assigns with
  | true =>
      refine walk.sequence (walk.collect_along ?_ depth) fun rest => ?_
      · refine walk.sequence (walk.eat .assign) fun found => ?_
        cases found with
        | true => exact walk.sequence (walk.testList depth) fun _ => walk.pure trivial
        | false => exact walk.pure trivial
      · exact walk.sequence (walk.mapM (walk.asTarget line) _) fun _ => walk.pure rfl
  | false =>
      refine walk.sequence walk.peek fun kind => ?_
      split
      · refine walk.sequence walk.advance fun _ => ?_
        refine walk.sequence (walk.asTarget line first) fun target => ?_
        cases target with
        | unpack targets => exact walk.throw _
        | name name => exact walk.sequence (walk.testList depth) fun _ => walk.pure rfl
        | index object index => exact walk.sequence (walk.testList depth) fun _ => walk.pure rfl
      · exact walk.pure rfl

theorem expressionStatement (depth line : Nat) (around : Surroundings) :
    walk.Ensures (Script.expressionStatement depth line) fun form => form.fits around = true := by
  obtain ⟨next, steps, ensures⟩ := walk.expressionStatement_steps depth line around
  rw [steps]
  exact walk.sequence (walk.testList depth) ensures

theorem smallForm (depth : Nat) (around : Surroundings) :
    walk.Ensures (Script.smallForm depth around) fun form => form.fits around = true := by
  have tested := walk.expressionAt depth .conditional
  refine walk.sequence walk.line fun line => ?_
  refine walk.sequence walk.peek fun kind => ?_
  split
  · exact walk.sequence walk.advance fun _ => walk.pure rfl
  · exact walk.provided _ _ fun loops => walk.sequence walk.advance fun _ => walk.pure loops
  · exact walk.provided _ _ fun loops => walk.sequence walk.advance fun _ => walk.pure loops
  · refine walk.provided _ _ fun called => ?_
    refine walk.sequence walk.advance fun _ => ?_
    refine walk.sequence walk.atStatementEnd? fun ended => ?_
    cases ended with
    | true => exact walk.pure called
    | false => exact walk.sequence (walk.testList depth) fun _ => walk.pure called
  · refine walk.sequence walk.advance fun _ => ?_
    refine walk.sequence walk.atStatementEnd? fun ended => ?_
    cases ended with
    | true => exact walk.pure rfl
    | false => exact walk.sequence tested fun _ => walk.pure rfl
  · refine walk.sequence walk.advance fun _ => ?_
    refine walk.sequence tested fun test => ?_
    refine walk.sequence (walk.eat .comma) fun comma => ?_
    cases comma with
    | true => exact walk.sequence tested fun _ => walk.pure rfl
    | false => exact walk.pure rfl
  · exact walk.fail _
  · exact walk.expressionStatement depth line around

theorem parameters (depth : Nat) {earlier : List Parameter} (listed : Listed earlier) :
    walk.Ensures (Script.parameters depth earlier) Listed := by
  induction depth generalizing earlier with
  | zero => exact walk.outOfDepth
  | succ depth inductionHypothesis =>
      have continued : ∀ read : List Parameter, Listed read → walk.Ensures (do
          if ← Parser.eat .comma then Script.parameters depth read
          else do
            Parser.expect .rightParen "')'"
            return read) Listed := by
        intro read listed
        refine walk.sequence (walk.eat .comma) fun comma => ?_
        cases comma with
        | true => exact inductionHypothesis listed
        | false => exact walk.sequence (walk.expect _ _) fun _ => walk.pure listed
      have expression := walk.expressionAt depth .conditional
      refine walk.sequence (walk.eat .rightParen) fun closed => ?_
      cases closed with
      | true => exact walk.pure listed
      | false =>
          refine walk.sequence walk.peek fun kind => ?_
          refine walk.barring _ _ fun _ => ?_
          refine walk.sequence (walk.expectName _) fun name => ?_
          refine walk.barring _ _ fun fresh => ?_
          refine walk.sequence (walk.eat .colon) fun annotated => ?_
          refine walk.skip annotated expression ?_
          refine walk.sequence (walk.eat .assign) fun assigned => ?_
          split
          · have present : walk.Ensures (some <$> Script.expressionAt depth .conditional)
                fun default => default.isSome = true :=
              walk.mapTo some expression fun _ _ => rfl
            exact walk.bind present fun default given =>
              continued _ (listed.append fresh (.inl given))
          · refine walk.barring _ _ fun required => ?_
            exact walk.sequence (walk.pure trivial) fun default =>
              continued _ (listed.append fresh (.inr required))

end Walk

end Stepwise.Script
