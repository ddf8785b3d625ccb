import Stepwise.Proofs.Parsing.Apart

/-!
Readers that answer have passed a token.

The end of the input stays ahead of every reader, and each reader of expressions or statements that
answers has fewer tokens ahead of it than before.  So a loop whose turns read one of them makes no more
turns than there are tokens.
-/

namespace Stepwise.Script

def Cursor.Ended (cursor : Cursor) : Prop :=
  ∃ front last, cursor.tokens = front ++ [last] ∧ last.kind = .endOfInput

/-- The tokens ahead of the second cursor are the last ones of those ahead of the first one, and the end
of the input is still among them. -/
structure Cursor.Onward (start finish : Cursor) : Prop where
  behind : finish.tokens <:+ start.tokens
  ended : finish.Ended

/-- On the way from the first cursor to the second one a token is passed, but not the end of the
input. -/
structure Cursor.Forward (start finish : Cursor) : Prop extends start.Onward finish where
  fewer : finish.tokens.length < start.tokens.length

namespace Cursor

variable {start middle finish cursor : Cursor}

theorem Ended.length_pos (ended : cursor.Ended) : 0 < cursor.tokens.length := by
  obtain ⟨front, last, split, -⟩ := ended
  rw [split, List.length_append]
  exact Nat.lt_add_left _ Nat.zero_lt_one

theorem Onward.refl (ended : start.Ended) : start.Onward start := ⟨List.suffix_rfl, ended⟩

theorem Onward.trans (before : start.Onward middle) (after : middle.Onward finish) :
    start.Onward finish :=
  ⟨after.behind.trans before.behind, after.ended⟩

theorem Onward.length_le (onward : start.Onward finish) :
    finish.tokens.length ≤ start.tokens.length :=
  onward.behind.length_le

theorem Forward.trans (before : start.Forward middle) (after : middle.Onward finish) :
    start.Forward finish :=
  ⟨before.toOnward.trans after, Nat.lt_of_le_of_lt after.length_le before.fewer⟩

theorem Onward.forward (before : start.Onward middle) (after : middle.Forward finish) :
    start.Forward finish :=
  ⟨before.trans after.toOnward, Nat.lt_of_lt_of_le after.fewer before.length_le⟩

theorem Ended.next_cases (ended : start.Ended) :
    start.kind = .endOfInput ∧ start.Onward start.next ∨ start.Forward start.next := by
  obtain ⟨tokens, lastLine, functions⟩ := start
  obtain ⟨front, last, split, marks⟩ := ended
  match front with
  | [] =>
      obtain rfl : tokens = [last] := split
      exact .inl ⟨marks, List.suffix_rfl, [], last, rfl, marks⟩
  | token :: front =>
      obtain rfl : tokens = token :: (front ++ [last]) := split
      have more : (front ++ [last]).isEmpty = false := by cases front <;> rfl
      have moved : (Cursor.mk (token :: (front ++ [last])) lastLine functions).next.tokens =
          front ++ [last] := by
        rw [next]
        simp only [more, Bool.false_eq_true, if_false]
      refine .inr ⟨⟨next_suffix _, front, last, moved, marks⟩, ?_⟩
      rw [moved]
      exact Nat.lt_succ_self _

theorem length_le_next (start : Cursor) : start.tokens.length ≤ start.next.tokens.length + 1 := by
  obtain ⟨tokens, lastLine, functions⟩ := start
  match tokens with
  | [] => exact Nat.zero_le _
  | token :: rest =>
      simp only [next]
      cases rest with
      | nil => exact Nat.le_succ _
      | cons token rest => exact Nat.le_refl _

theorem Ended.next (ended : start.Ended) : start.Onward start.next := by
  rcases ended.next_cases with ⟨-, onward⟩ | forward
  · exact onward
  · exact forward.toOnward

theorem Ended.next_forward (ended : start.Ended) (inside : start.kind ≠ .endOfInput) :
    start.Forward start.next := by
  rcases ended.next_cases with ⟨marks, -⟩ | forward
  · exact absurd marks inside
  · exact forward

end Cursor

def onward : Walk where
  Leads start finish := start.Ended → start.Onward finish
  stay _ := .refl
  trans before after ended := (before ended).trans (after (before ended).ended)
  next _ ended := ended.next

namespace Cursor

variable {start middle finish : Cursor}

theorem Steps.onward (steps : start.Steps finish) (ended : start.Ended) : start.Onward finish :=
  steps.leads Script.onward ended

theorem ne_endOfInput_of_isWritten (written : start.kind.isWritten = true) :
    start.kind ≠ .endOfInput := by
  intro same
  rw [same] at written
  cases written

theorem Passes.forward (passes : start.Passes finish) (ended : start.Ended) : start.Forward finish :=
  have next := ended.next_forward (ne_endOfInput_of_isWritten passes.written)
  next.trans (passes.steps.onward next.ended)

end Cursor

def Part.isFilled : Part → Bool
  | .lines | .orelse => false
  | _ => true

namespace Reads

variable {part : Part} {around : Surroundings} {start finish : Cursor} {statements : List Statement}

theorem onward (reads : Reads part around start statements finish) (ended : start.Ended) :
    start.Onward finish := by
  refine reads.preserves (fun cursor => start.Onward cursor) ?_ ?_ (.refl ended)
  · intro cursor onward
    exact onward.trans onward.ended.next
  · intro _ _ finish parameters body name _ _ _ _ _ onward
    exact ⟨onward.behind, onward.ended⟩

theorem forward (reads : Reads part around start statements finish) (filled : part.isFilled = true)
    (ended : start.Ended) : start.Forward finish := by
  induction reads with
  | last _ passes ends =>
      have inside := passes.forward ended
      exact inside.trans (ends.steps.onward inside.ended)
  | semicolon _ passes rest =>
      have inside := passes.forward ended
      exact inside.trans (rest.onward inside.ended)
  | simple _ line => exact line rfl ended
  | branch _ passes body orelse =>
      have inside := passes.forward ended
      have between := body.onward inside.ended
      exact inside.trans (between.trans (orelse.onward between.ended))
  | whileLoop _ passes body =>
      have inside := passes.forward ended
      exact inside.trans (body.onward inside.ended)
  | forLoop _ _ passes body =>
      have inside := passes.forward ended
      exact inside.trans (body.onward inside.ended)
  | define _ _ passes _ body =>
      have inside := passes.forward ended
      have after := body.onward inside.ended
      exact inside.trans ⟨after.behind, after.ended⟩
  | ended => cases filled
  | more => cases filled
  | inline passes line =>
      have inside := passes.forward ended
      exact inside.trans (line.onward inside.ended)
  | indented passes newline indent lines ends =>
      have outside := passes.forward ended
      have below := outside.ended.next.trans outside.ended.next.ended.next
      have after := lines.onward below.ended
      exact outside.trans (below.trans (after.trans (ends.steps.onward after.ended)))
  | omitted => cases filled
  | elif => cases filled
  | otherwise => cases filled

end Reads

section

variable {α β : Type} {parser : Parser α} {next : α → Parser β}

/-- Wherever the reader answers, it has passed a token, but not the end of the input. -/
def Progresses (parser : Parser α) : Prop :=
  ∀ start : Cursor, start.Ended → Yields start parser fun _ finish => start.Forward finish

/-- A turn of a loop goes onward, and where it gives an item, it has passed a token. -/
def Turns (step : Parser (Option α)) : Prop :=
  ∀ start : Cursor, start.Ended → Yields start step fun found finish =>
    start.Onward finish ∧ (found.isSome = true → start.Forward finish)

theorem Yields.onward (along : onward.Along parser) {start : Cursor} (ended : start.Ended) :
    Yields start parser fun _ finish => start.Onward finish :=
  fun answer finish ran => (along start answer finish ran).1 ended

namespace Turns

theorem done : Turns (Pure.pure none : Parser (Option α)) :=
  fun _ ended => .pure ⟨.refl ended, nofun⟩

theorem item (progresses : Progresses parser) (change : α → β) :
    Turns (do return some (change (← parser))) :=
  fun start ended => .bind (progresses start ended) fun _ _ forward =>
    .pure ⟨forward.toOnward, fun _ => forward⟩

theorem after {next : α → Parser (Option β)} (along : onward.Along parser)
    (rest : ∀ answer, Turns (next answer)) : Turns (parser >>= next) :=
  fun _ ended => .bind (.onward along ended) fun answer middle before =>
    (rest answer middle before.ended).weaken fun _ _ after =>
      ⟨before.trans after.1, fun given => before.forward (after.2 given)⟩

theorem along {step : Parser (Option α)} (turns : Turns step) (allowed : Nat) :
    onward.Along (Parser.collect allowed step) := by
  refine onward.collect_along (fun start found finish ran => ?_) allowed
  exact ⟨fun ended => (turns start ended found finish ran).1, trivial⟩

end Turns

theorem Consumes.progresses (consumes : Consumes parser) : Progresses parser :=
  fun start ended => (consumes start).weaken fun _ _ passes => passes.forward ended

namespace Progresses

theorem along (progresses : Progresses parser) : onward.Along parser :=
  fun start answer finish ran =>
    ⟨fun ended => (progresses start ended answer finish ran).toOnward, trivial⟩

theorem bind (progresses : Progresses parser) (rest : ∀ answer, onward.Along (next answer)) :
    Progresses (parser >>= next) :=
  fun start ended => .bind (progresses start ended) fun answer _ forward =>
    (Yields.onward (rest answer) forward.ended).weaken fun _ _ onward => forward.trans onward

theorem after (along : onward.Along parser) (rest : ∀ answer, Progresses (next answer)) :
    Progresses (parser >>= next) :=
  fun _ ended => .bind (.onward along ended) fun answer middle before =>
    (rest answer middle before.ended).weaken fun _ _ after => before.forward after

theorem expressionAt (depth : Nat) (level : Level) : Progresses (Script.expressionAt depth level) :=
  (Consumes.expressionAt depth level).progresses

theorem testList (depth : Nat) : Progresses (Script.testList depth) :=
  (Consumes.testList depth).progresses

theorem smallForm (depth : Nat) (around : Surroundings) : Progresses (Script.smallForm depth around) :=
  (Consumes.smallForm depth around).progresses

theorem simpleLine (depth : Nat) (around : Surroundings) (sameLine : Bool) :
    Progresses (Script.simpleLine around depth sameLine) :=
  fun _ ended => (Yields.simpleLine depth around sameLine _).weaken fun _ _ reads =>
    reads.forward rfl ended

theorem turns {step : Parser (Option α)} (progresses : Progresses step) : Turns step :=
  fun start ended => (progresses start ended).weaken fun _ _ forward =>
    ⟨forward.toOnward, fun _ => forward⟩

theorem expectName (what : String) : Progresses (Parser.expectName what) := by
  intro start ended
  refine .peek ?_
  split
  · next same =>
      have inside : start.kind ≠ .endOfInput := by rw [same]; nofun
      exact .advance (.pure (ended.next_forward inside))
  · exact .fail _

section

variable {statement : Surroundings → Parser (List Statement)}
  (reads : ∀ around start, Yields start (statement around) (Reads .line around start))

include reads

theorem block (depth : Nat) (around : Surroundings) (header : String) :
    Progresses (Script.block depth statement around header) :=
  fun _ ended => (Yields.block reads depth around header _).weaken fun _ _ reads =>
    reads.forward rfl ended

theorem guardedBlock (depth : Nat) (around : Surroundings) :
    Progresses (Script.guardedBlock depth statement around) := by
  refine after onward.line fun line => after onward.advance fun _ => ?_
  refine (expressionAt depth .conditional).bind fun test => ?_
  exact onward.sequence (block reads depth around "if").along fun body => onward.pure trivial

theorem branches (depth : Nat) (around : Surroundings) :
    Progresses (Script.branches depth statement around) := by
  have guarded := guardedBlock reads depth around
  refine guarded.bind fun first => ?_
  refine onward.sequence (onward.collect_along ?_ depth) fun rest => ?_
  · refine onward.sequence (onward.atWord? .elifWord) fun found => ?_
    cases found with
    | true => exact onward.sequence guarded.along fun _ => onward.pure trivial
    | false => exact onward.pure trivial
  · refine onward.sequence (onward.eatWord .elseWord) fun found => ?_
    cases found with
    | true =>
        have last := (block reads depth around "else").along
        exact onward.sequence last fun _ => onward.pure trivial
    | false => exact onward.pure trivial

theorem definition (depth : Nat) (around : Surroundings) :
    Progresses (Script.definition depth statement around) := by
  refine after onward.line fun firstLine start ended => ?_
  refine Yields.barring _ _ fun _ => ?_
  refine after onward.advance (fun _ => ?_) start ended
  refine (expectName "function name").bind fun name => ?_
  refine onward.sequence (onward.expect .leftParen "'('") fun _ => ?_
  refine onward.sequence (onward.parameters depth .nil).along fun parameters => ?_
  refine onward.sequence (onward.eat .arrow) fun arrow => ?_
  refine onward.skip arrow (onward.expressionAt depth .conditional) ?_
  refine onward.sequence (onward.map _ (block reads depth ⟨true, false⟩ "def").along) fun body => ?_
  -- taking up the function leaves the tokens as they are
  intro start answer finish ran
  cases ran
  exact ⟨fun ended => ⟨List.suffix_rfl, ended⟩, trivial⟩

end

theorem statementAt (depth : Nat) (around : Surroundings) :
    Progresses (Script.statementAt depth around) :=
  fun _ ended => (Yields.statementAt depth around _).weaken fun _ _ reads =>
    reads.forward rfl ended

end Progresses

end

end Stepwise.Script
