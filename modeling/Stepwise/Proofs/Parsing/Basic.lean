import Stepwise.Script.Parser

/-!
What readers of tokens do to the cursor.

A `Walk` says how a cursor may move.  A reader that is put together from readers that keep to a walk
keeps to it too, and what it ensures of its answer follows from what they ensure of theirs.
-/

namespace Stepwise.Script

theorem Parser.bind_ended {α β : Type} {parser : Parser α} {next : α → Parser β}
    {start finish : Cursor} {answer : β}
    (ended : ((parser >>= next) start).run = some (.ok (answer, finish))) :
    ∃ found middle, (parser start).run = some (.ok (found, middle)) ∧
      (next found middle).run = some (.ok (answer, finish)) := by
  have steps : (parser >>= next) start = parser start >>= fun read => next read.1 read.2 := rfl
  rw [steps, ExceptT.run_bind] at ended
  cases read : (parser start).run with
  | none => rw [read] at ended; cases ended
  | some result =>
      rw [read] at ended
      cases result with
      | error error => cases ended
      | ok result => exact ⟨result.1, result.2, rfl, ended⟩

/-- How a cursor may move: not at all, past a token, and on from where it is. -/
structure Walk where
  Leads : Cursor → Cursor → Prop
  stay (cursor : Cursor) : Leads cursor cursor
  trans {start middle finish : Cursor} :
    Leads start middle → Leads middle finish → Leads start finish
  next (cursor : Cursor) : Leads cursor cursor.next

namespace Walk

variable {α β : Type} (walk : Walk)

/-- Whenever the reader answers, the cursor has kept to the walk and the answer is as expected. -/
def Ensures (parser : Parser α) (expected : α → Prop) : Prop :=
  ∀ start answer finish, (parser start).run = some (.ok (answer, finish)) →
    walk.Leads start finish ∧ expected answer

abbrev Along (parser : Parser α) : Prop := walk.Ensures parser fun _ => True

variable {walk} {parser : Parser α} {expected wanted : α → Prop}

theorem Ensures.weaken (ensures : walk.Ensures parser expected)
    (implies : ∀ answer, expected answer → wanted answer) : walk.Ensures parser wanted := by
  intro start answer finish ended
  obtain ⟨leads, holds⟩ := ensures start answer finish ended
  exact ⟨leads, implies answer holds⟩

theorem Ensures.along (ensures : walk.Ensures parser expected) : walk.Along parser :=
  ensures.weaken fun _ _ => trivial

variable (walk)

theorem pure {answer : α} (holds : expected answer) :
    walk.Ensures (Pure.pure answer) expected := by
  intro start _ finish ended
  cases ended
  exact ⟨walk.stay start, holds⟩

theorem bind {next : α → Parser β} {wanted : β → Prop} (first : walk.Ensures parser expected)
    (rest : ∀ answer, expected answer → walk.Ensures (next answer) wanted) :
    walk.Ensures (parser >>= next) wanted := by
  intro start answer finish ended
  obtain ⟨found, middle, read, readOn⟩ := Parser.bind_ended ended
  obtain ⟨leads, holds⟩ := first start found middle read
  obtain ⟨leadsOn, holdsToo⟩ := rest found holds middle answer finish readOn
  exact ⟨walk.trans leads leadsOn, holdsToo⟩

theorem sequence {next : α → Parser β} {wanted : β → Prop} (first : walk.Along parser)
    (rest : ∀ answer, walk.Ensures (next answer) wanted) :
    walk.Ensures (parser >>= next) wanted :=
  walk.bind first fun answer _ => rest answer

theorem mapTo {wanted : β → Prop} (change : α → β) (ensures : walk.Ensures parser expected)
    (implies : ∀ answer, expected answer → wanted (change answer)) :
    walk.Ensures (change <$> parser) wanted := by
  rw [map_eq_pure_bind]
  exact walk.bind ensures fun answer holds => walk.pure (implies answer holds)

theorem map (change : α → β) (along : walk.Along parser) : walk.Along (change <$> parser) :=
  walk.mapTo change along fun _ _ => trivial

theorem throw (error : SyntaxError) : walk.Ensures (MonadExcept.throw error) expected := by
  intro start answer finish ended
  cases ended

theorem outOfDepth : walk.Ensures Parser.outOfDepth expected := by
  intro start answer finish ended
  cases ended

theorem get : walk.Along MonadState.get := by
  intro start answer finish ended
  cases ended
  exact ⟨walk.stay start, trivial⟩

theorem peek : walk.Along Parser.peek :=
  walk.sequence walk.get fun _ => walk.pure trivial

theorem line : walk.Along Parser.line :=
  walk.sequence walk.get fun _ => walk.pure trivial

theorem advance : walk.Along Parser.advance := by
  intro start answer finish ended
  cases ended
  exact ⟨walk.next start, trivial⟩

theorem fail (problem : SyntaxProblem) : walk.Ensures (Parser.fail problem) expected :=
  walk.sequence walk.get fun _ => walk.throw _

theorem never {next : α → Parser β} {wanted : β → Prop}
    (silent : walk.Ensures parser fun _ => False) : walk.Ensures (parser >>= next) wanted :=
  walk.bind silent fun _ impossible => impossible.elim

theorem stop {next : α → Parser β} {wanted : β → Prop} (problem : SyntaxProblem) :
    walk.Ensures (Parser.fail problem >>= next) wanted :=
  walk.never (walk.fail problem)

theorem provided {next : Unit → Parser β} {wanted : β → Prop} (condition : Bool)
    (problem : SyntaxProblem) (rest : condition = true → walk.Ensures (next ()) wanted) :
    walk.Ensures (if condition = true then next () else Parser.fail problem >>= next) wanted := by
  cases condition with
  | true => exact rest rfl
  | false => exact walk.stop problem

theorem barring {next : Unit → Parser β} {wanted : β → Prop} (condition : Bool)
    (problem : SyntaxProblem) (rest : condition = false → walk.Ensures (next ()) wanted) :
    walk.Ensures (if condition = true then Parser.fail problem >>= next else next ()) wanted := by
  cases condition with
  | true => exact walk.stop problem
  | false => exact rest rfl

theorem eatIf (test : TokenKind → Bool) : walk.Along (Parser.eatIf test) := by
  refine walk.sequence walk.peek fun kind => ?_
  split
  · exact walk.sequence walk.advance fun _ => walk.pure trivial
  · exact walk.pure trivial

theorem eat (symbol : Symbol) : walk.Along (Parser.eat symbol) := walk.eatIf _

theorem eatWord (keyword : Keyword) : walk.Along (Parser.eatWord keyword) := walk.eatIf _

theorem at? (symbol : Symbol) : walk.Along (Parser.at? symbol) :=
  walk.sequence walk.peek fun _ => walk.pure trivial

theorem atWord? (keyword : Keyword) : walk.Along (Parser.atWord? keyword) :=
  walk.sequence walk.peek fun _ => walk.pure trivial

theorem expect (symbol : Symbol) (what : String) : walk.Along (Parser.expect symbol what) := by
  refine walk.sequence (walk.eat symbol) fun eaten => ?_
  cases eaten with
  | true => exact walk.pure trivial
  | false => exact walk.fail _

theorem closes (symbol : Symbol) (what : String) (built : α) :
    walk.Along (do Parser.expect symbol what; return built) :=
  walk.sequence (walk.expect symbol what) fun _ => walk.pure trivial

theorem expectName (what : String) : walk.Along (Parser.expectName what) := by
  refine walk.sequence walk.peek fun kind => ?_
  split
  · exact walk.sequence walk.advance fun _ => walk.pure trivial
  · exact walk.fail _

theorem atStatementEnd? : walk.Along Parser.atStatementEnd? := by
  refine walk.sequence walk.peek fun kind => ?_
  split <;> exact walk.pure trivial

theorem optional {next : Option α → Parser β} {wanted : β → Prop} (omitted : Bool)
    (along : walk.Along parser) (rest : ∀ found, walk.Ensures (next found) wanted) :
    walk.Ensures (if omitted = true then Pure.pure none >>= next else some <$> parser >>= next)
      wanted := by
  cases omitted with
  | true => exact rest none
  | false => exact walk.sequence (walk.map some along) rest

theorem skip {next : Unit → Parser β} {wanted : β → Prop} (present : Bool)
    (along : walk.Along parser) (rest : walk.Ensures (next ()) wanted) :
    walk.Ensures (if present = true then discard parser >>= next else next ()) wanted := by
  cases present with
  | true => exact walk.sequence (walk.map _ along) fun _ => rest
  | false => exact rest

theorem collect_along {step : Parser (Option α)} (along : walk.Along step) (depth : Nat) :
    walk.Along (Parser.collect depth step) := by
  induction depth with
  | zero => exact walk.outOfDepth
  | succ depth inductionHypothesis =>
      refine walk.sequence along fun found => ?_
      cases found with
      | none => exact walk.pure trivial
      | some first => exact walk.sequence inductionHypothesis fun rest => walk.pure trivial

theorem afterCommas {ended : Parser Bool} (stops : walk.Along ended) (along : walk.Along parser)
    (depth : Nat) : walk.Along (Parser.afterCommas depth ended parser) := by
  refine walk.collect_along ?_ depth
  refine walk.sequence (walk.eat .comma) fun comma => ?_
  cases comma with
  | false => exact walk.pure trivial
  | true =>
      refine walk.sequence stops fun stop => ?_
      cases stop with
      | true => exact walk.pure trivial
      | false => exact walk.sequence along fun _ => walk.pure trivial

end Walk

end Stepwise.Script
