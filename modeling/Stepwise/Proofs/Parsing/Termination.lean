import Stepwise.Proofs.Lexing.Nesting
import Stepwise.Proofs.Parsing.Replies

/-!
Reading a program ends.

The readers of statements reply, given as much depth as readers of expressions need and a little more,
so the depth that a program is read with is never used up.
-/

namespace Stepwise.Script

variable {room : Nat}

theorem Progresses.ofReads {parser : Parser (List Statement)} {around : Surroundings}
    (reads : ∀ start, Yields start parser (Reads .line around start)) : Progresses parser :=
  fun start ended => (reads start).weaken fun _ _ reads => reads.forward rfl ended

def assignmentTurn (depth : Nat) : Parser (Option Expr) := do
  if ← Parser.eat .assign then return some (← testList depth)
  else return none

def blockTurn (statement : Surroundings → Parser (List Statement)) (around : Surroundings) :
    Parser (Option (List Statement)) := do
  match ← Parser.peek with
  | .dedent | .endOfInput => return none
  | _ => return some (← statement around)

def elifTurn (depth : Nat) (statement : Surroundings → Parser (List Statement))
    (around : Surroundings) : Parser (Option (Nat × Expr × List Statement)) := do
  if ← Parser.atWord? .elifWord then return some (← guardedBlock depth statement around)
  else return none

def programTurn (statement : Surroundings → Parser (List Statement)) :
    Parser (Option (List Statement)) := do
  match ← Parser.peek with
  | .endOfInput => return none
  | .indent => Parser.fail .unexpectedIndent
  | _ => return some (← statement ⟨false, false⟩)

namespace Turns

theorem assignment (depth : Nat) : Turns (assignmentTurn depth) := by
  refine Turns.after (onward.eat .assign) fun found => ?_
  cases found with
  | true => exact .item (Progresses.testList depth) id
  | false => exact .done

section

variable {statement : Surroundings → Parser (List Statement)}
  (reads : ∀ around start, Yields start (statement around) (Reads .line around start))

include reads

theorem block (around : Surroundings) : Turns (blockTurn statement around) := by
  refine Turns.after onward.peek fun kind => ?_
  split
  · exact .done
  · exact .done
  · exact .item (.ofReads (reads around)) id

theorem elif (depth : Nat) (around : Surroundings) : Turns (elifTurn depth statement around) := by
  refine Turns.after (onward.atWord? .elifWord) fun found => ?_
  cases found with
  | true => exact .item (Progresses.guardedBlock reads depth around) id
  | false => exact .done

theorem program : Turns (programTurn statement) := by
  refine Turns.after onward.peek fun kind => ?_
  split
  · exact .done
  · exact fun start _ => .fail _
  · exact .item (.ofReads (reads ⟨false, false⟩)) id

end

end Turns

/-- The reader replies wherever at most so many tokens are behind the next one. -/
def RepliesBehind {α : Type} (room : Nat) (parser : Parser α) : Prop :=
  ∀ start : Cursor, start.Ended → start.next.tokens.length ≤ room → RepliesAt start parser

namespace RepliesBehind

variable {α β : Type} {parser : Parser α} {next : α → Parser β}

theorem line {next : Nat → Parser β} (rest : ∀ line, RepliesBehind room (next line)) :
    RepliesBehind room (Parser.line >>= next) :=
  fun start ended enough => rest start.line start ended enough

theorem advance {next : Unit → Parser β} (rest : Replies room (next ())) :
    RepliesBehind room (Parser.advance >>= next) :=
  fun start ended enough => rest start.next ended.next.ended enough

theorem barring {next : Unit → Parser β} (condition : Bool) (problem : SyntaxProblem)
    (rest : RepliesBehind room (next ())) :
    RepliesBehind room (if condition = true then Parser.fail problem >>= next else next ()) := by
  cases condition with
  | true => exact fun start ended _ => Replies.stop problem start ended (Nat.le_refl _)
  | false => exact rest

theorem bind (first : RepliesBehind room parser) (progresses : Progresses parser)
    (rest : ∀ answer, Replies room (next answer)) : RepliesBehind room (parser >>= next) :=
  fun start ended enough => .bind (first start ended enough) (progresses start ended)
    fun answer middle forward => rest answer middle forward.ended <| by
      have fewer := Nat.lt_of_lt_of_le forward.fewer start.length_le_next
      exact Nat.le_trans (Nat.le_of_lt_succ fewer) enough

theorem replies (behind : RepliesBehind room parser) : Replies room parser :=
  fun start ended enough =>
    behind start ended (Nat.le_trans ended.next.length_le enough)

theorem inside {start : Cursor} (behind : RepliesBehind room parser) (ended : start.Ended)
    (within : start.tokens.length ≤ room + 1) (token : start.kind ≠ .endOfInput) :
    RepliesAt start parser := by
  have fewer := Nat.lt_of_lt_of_le (ended.next_forward token).fewer within
  exact behind start ended (Nat.le_of_lt_succ fewer)

end RepliesBehind

namespace Replies

theorem mapM {α β : Type} {read : α → Parser β} (along : ∀ item, onward.Along (read item))
    (replies : ∀ item, Replies room (read item)) (items : List α) :
    Replies room (items.mapM read) := by
  induction items with
  | nil => exact pure []
  | cons item items inductionHypothesis =>
      rw [List.mapM_cons]
      exact (replies item).bind (along item) fun _ => inductionHypothesis.answer _

theorem assignmentTurn {depth : Nat} (enough : 16 * room + 10 < depth) :
    Replies room (Script.assignmentTurn depth) := by
  refine eatIf _ fun found => ?_
  cases found with
  | true => exact (testList enough).answer some
  | false => exact pure none

theorem expressionStatement {depth : Nat} (enough : 16 * room + 10 < depth) (line : Nat) :
    Replies room (Script.expressionStatement depth line) := by
  have replies : Replies room (Script.testList depth) := testList enough
  refine replies.bind (Progresses.testList depth).along fun first => ?_
  refine at? .assign fun assigns => ?_
  cases assigns with
  | true =>
      have turns := Turns.assignment depth
      have within : room ≤ depth := by omega
      have rest := collect (assignmentTurn enough) turns within
      refine rest.bind (turns.along depth) fun rest => ?_
      exact (mapM (onward.asTarget line) (asTarget line) _).answer _
  | false =>
      refine peek fun kind => ?_
      split
      · refine advance ((asTarget line first).bind (onward.asTarget line first) fun target => ?_)
        cases target with
        | unpack targets => exact throw _
        | name name => exact replies.answer _
        | index object index => exact replies.answer _
      · exact pure _

theorem smallForm {depth : Nat} (enough : 16 * room + 10 < depth) (around : Surroundings) :
    Replies room (Script.smallForm depth around) := by
  have tested := expression enough .conditional
  refine line fun line => peek fun kind => ?_
  split
  · exact advance (pure _)
  · exact provided _ _ (advance (pure _))
  · exact provided _ _ (advance (pure _))
  · refine provided _ _ (advance (atStatementEnd? fun ended => ?_))
    cases ended with
    | true => exact pure _
    | false => exact (testList enough).answer _
  · refine advance (atStatementEnd? fun ended => ?_)
    cases ended with
    | true => exact pure _
    | false => exact tested.answer _
  · refine advance (tested.bind (Progresses.expressionAt depth .conditional).along fun test => ?_)
    refine eatIf _ fun comma => ?_
    cases comma with
    | true => exact tested.answer _
    | false => exact pure _
  · exact fail _
  · exact expressionStatement enough line

theorem endOfLine {α : Type} (answer : α) : Replies room (do
    unless ← Parser.eatIf (· matches .newline) do
      unless (← Parser.peek) matches .endOfInput do Parser.fail .unexpected
    return answer) := by
  refine eatIf _ fun found => ?_
  cases found with
  | true => exact pure answer
  | false => exact peek fun kind => provided _ _ (pure answer)

/-- A line of statements needs a turn for every token besides the depth that its statements need. -/
theorem simpleLine {depth : Nat} (around : Surroundings)
    (replies : ∀ passed < room,
      Replies (room - passed) (Script.smallForm (depth - 1 - passed) around))
    (enough : room ≤ depth) (sameLine : Bool) :
    Replies room (Script.simpleLine around depth sameLine) := by
  induction depth generalizing room sameLine with
  | zero => exact (Nat.le_zero.mp enough).symm ▸ nowhere
  | succ depth inductionHypothesis =>
      cases room with
      | zero => exact nowhere
      | succ room =>
          have more : Replies room (Script.simpleLine around depth true) := by
            refine inductionHypothesis (fun passed before => ?_) (Nat.le_of_succ_le_succ enough) true
            have later := replies (passed + 1) (Nat.succ_lt_succ before)
            rw [Nat.succ_sub_succ] at later
            rwa [Nat.sub_right_comm, Nat.sub_sub]
          refine line fun line => ?_
          refine (replies 0 (Nat.zero_lt_succ room)).past (Progresses.smallForm depth around)
            fun form => ?_
          refine eatIf _ fun semicolon => ?_
          cases semicolon with
          | true =>
              refine peek fun kind => ?_
              split
              · exact endOfLine _
              · exact more.answer _
          | false => exact endOfLine _

/-- Parameters need a turn for every token besides the depth that their expressions need. -/
theorem parameters {depth : Nat}
    (replies : ∀ passed < room,
      Replies (room - passed) (Script.expressionAt (depth - 1 - passed) .conditional))
    (enough : room ≤ depth) (earlier : List Parameter) :
    Replies room (Script.parameters depth earlier) := by
  induction depth generalizing room earlier with
  | zero => exact (Nat.le_zero.mp enough).symm ▸ nowhere
  | succ depth inductionHypothesis =>
      cases room with
      | zero => exact nowhere
      | succ room =>
          have expression : Replies room (Script.expressionAt depth .conditional) :=
            (replies 0 (Nat.zero_lt_succ room)).mono (Nat.le_succ room)
          have along := (Progresses.expressionAt depth .conditional).along
          have more : ∀ read, Replies room (Script.parameters depth read) := by
            refine inductionHypothesis (fun passed before => ?_) (Nat.le_of_succ_le_succ enough)
            have later := replies (passed + 1) (Nat.succ_lt_succ before)
            rw [Nat.succ_sub_succ] at later
            rwa [Nat.sub_right_comm, Nat.sub_sub]
          have continued : ∀ read : List Parameter, Replies room (do
              if ← Parser.eat .comma then Script.parameters depth read
              else do
                Parser.expect .rightParen "')'"
                return read) := by
            intro read
            refine eatIf _ fun comma => ?_
            cases comma with
            | true => exact more read
            | false => exact closes _ _ _
          refine eatIf _ fun closed => ?_
          cases closed with
          | true => exact pure earlier
          | false =>
              refine peek fun kind => barring _ _ ?_
              refine (name "parameter name").past (Progresses.expectName _) fun name => ?_
              refine barring _ _ (eatIf _ fun annotated => ?_)
              refine skip annotated expression along (eatIf _ fun assigned => ?_)
              split
              · exact (expression.map some).bind (onward.map some along) fun _ => continued _
              · exact barring _ _ ((pure none).bind (onward.pure trivial) fun _ => continued _)

/-- Further along a line there are fewer tokens ahead, so less depth is needed. -/
theorem simpleLineWithin {depth : Nat} (enough : 16 * room + 11 < depth) (around : Surroundings)
    (sameLine : Bool) : Replies room (Script.simpleLine around depth sameLine) :=
  simpleLine around (fun _ _ => smallForm (by omega) around) (by omega) sameLine

theorem parametersWithin {depth : Nat} (enough : 16 * room + 11 < depth)
    (earlier : List Parameter) : Replies room (Script.parameters depth earlier) :=
  parameters (fun _ _ => expression (by omega) .conditional) (by omega) earlier

section

variable {statement : Surroundings → Parser (List Statement)}
  (reads : ∀ around start, Yields start (statement around) (Reads .line around start))
  (replies : ∀ around, Replies room (statement around)) {depth : Nat}

include replies

theorem blockTurn (around : Surroundings) : Replies room (Script.blockTurn statement around) := by
  refine peek fun kind => ?_
  split
  · exact pure none
  · exact pure none
  · exact (replies around).answer some

theorem programTurn : Replies room (Script.programTurn statement) := by
  refine peek fun kind => ?_
  split
  · exact pure none
  · exact fail _
  · exact (replies _).answer some

include reads

theorem block (enough : 16 * room + 11 < depth) (around : Surroundings) (header : String) :
    Replies room (Script.block depth statement around header) := by
  refine line fun headerLine => expect _ _ (eatIf _ fun newline => ?_)
  cases newline with
  | true =>
      have turns := Turns.block reads around
      have within : room ≤ depth := by omega
      have body := collect (blockTurn replies around) turns within
      refine eatIf _ fun indent => ?_
      cases indent with
      | true => exact body.bind (turns.along depth) fun body => (found _).map _ |>.answer _
      | false => exact line fun line => throw _
  | false => exact simpleLineWithin enough around true

theorem guardedBlock (enough : 16 * room + 11 < depth) (around : Surroundings) :
    RepliesBehind room (Script.guardedBlock depth statement around) := by
  refine .line fun line => .advance ?_
  have test := expression (Nat.lt_of_succ_lt enough) .conditional
  refine test.bind (Progresses.expressionAt depth _).along fun test => ?_
  exact (block reads replies enough around "if").answer _

theorem elifTurn (enough : 16 * room + 11 < depth) (around : Surroundings) :
    Replies room (Script.elifTurn depth statement around) := by
  refine atWord? _ fun found => ?_
  cases found with
  | true => exact (guardedBlock reads replies enough around).replies.answer some
  | false => exact pure none

theorem branches (enough : 16 * room + 11 < depth) (around : Surroundings) :
    RepliesBehind room (Script.branches depth statement around) := by
  have turns := Turns.elif reads depth around
  have first := guardedBlock reads replies enough around
  have within : room ≤ depth := by omega
  have rest := collect (elifTurn reads replies enough around) turns within
  refine first.bind (Progresses.guardedBlock reads depth around) fun first => ?_
  refine rest.bind (turns.along depth) fun rest => eatIf _ fun found => ?_
  cases found with
  | true => exact (block reads replies enough around "else").answer _
  | false => exact pure _

theorem definition (enough : 16 * room + 11 < depth) (around : Surroundings) :
    RepliesBehind room (Script.definition depth statement around) := by
  have annotation := expression (Nat.lt_of_succ_lt enough) .conditional
  have body := block reads replies enough ⟨true, false⟩ "def"
  have along := (Progresses.block reads depth ⟨true, false⟩ "def").along
  refine .line fun firstLine => .barring _ _ (.advance ?_)
  refine (name _).bind (onward.expectName _) fun name => expect _ _ ?_
  refine (parametersWithin enough []).bind (onward.parameters depth .nil).along fun parameters => ?_
  refine eatIf _ fun arrow => ?_
  refine skip arrow annotation (Progresses.expressionAt depth _).along ?_
  refine (body.map _).bind (onward.map _ along) fun body => get fun cursor => ?_
  exact fun start ended within => ⟨_, rfl⟩

theorem loopBody {answer : List Statement → List Statement} (enough : 16 * room + 11 < depth)
    (around : Surroundings) (header : String) : Replies room (do
      let body ← Script.block depth statement around header
      rejectLoopElse
      return answer body) := by
  have body := block reads replies enough around header
  refine body.bind (Progresses.block reads depth around header).along fun body => ?_
  have rejected : Replies room rejectLoopElse := atWord? .elseWord fun found => by
    cases found with
    | true => exact fail _
    | false => exact pure ()
  have stays : onward.Along rejectLoopElse := by
    intro start answer finish ran
    rw [Yields.rejectLoopElse answer finish ran]
    exact ⟨.refl, trivial⟩
  exact rejected.bind stays fun _ => pure _

/-- A statement needs more depth than the blocks in it, as it has a token of its own. -/
theorem statementRule (enough : 16 * (room + 1) + 11 < depth) (around : Surroundings) :
    Replies (room + 1) (Script.statementRule depth statement around) := by
  have inside : 16 * room + 11 < depth := by omega
  have expression := fun level => expression (Nat.lt_of_succ_lt inside) level
  have progresses := Progresses.expressionAt depth
  intro start ended within
  refine .line (.peek ?_)
  split <;> rename_i same
  · exact (branches reads replies inside around).inside ended within (by rw [same]; nofun)
  · refine .advance ended within (by rw [same]; nofun) ?_
    refine (expression _).bind (progresses _).along fun test => ?_
    exact loopBody reads replies inside _ _
  · refine .advance ended within (by rw [same]; nofun) ?_
    have within : room ≤ depth := by omega
    have target := targetList progresses expression within start.line
    refine target.bind (Progresses.targetList progresses depth _).along fun target => ?_
    refine eatIf _ fun found => provided found _ ?_
    refine (testList (Nat.lt_of_succ_lt inside)).bind (Progresses.testList depth).along fun test => ?_
    exact loopBody reads replies inside _ _
  · have defined := definition reads replies inside around
    exact (defined.inside ended within (by rw [same]; nofun)).answer _
  · exact .fail _
  · exact .fail _
  · exact simpleLineWithin enough around false start ended within

end

theorem statementAt {depth : Nat} (enough : 16 * room + 12 < depth) (around : Surroundings) :
    Replies room (Script.statementAt depth around) := by
  induction depth generalizing room around with
  | zero => exact absurd enough (Nat.not_lt_zero _)
  | succ depth inductionHypothesis =>
      cases room with
      | zero => exact nowhere
      | succ room =>
          refine statementRule (fun around start => Yields.statementAt depth around start) ?_
            (Nat.lt_of_succ_lt_succ enough) around
          exact fun around => inductionHypothesis (by omega) around

theorem program {depth : Nat} (enough : 16 * room + 12 < depth) :
    Replies room (Script.program depth) := by
  have turns := Turns.program fun around start => Yields.statementAt depth around start
  have within : room ≤ depth := by omega
  have body := collect (programTurn fun around => statementAt enough around) turns within
  exact body.bind (turns.along depth) fun body => get fun cursor => pure _

theorem ofTokens? {tokens : List Token} (ended : (Cursor.mk tokens 1 []).Ended) :
    ∃ outcome, Program.ofTokens? tokens = some outcome := by
  have enough : 16 * tokens.length + 12 < depthFor tokens.length := by
    rw [depthFor]
    omega
  obtain ⟨outcome, ran⟩ := program enough ⟨tokens, 1, []⟩ ended (Nat.le_refl _)
  have forget : Program.ofTokens? tokens =
      Except.map Prod.fst <$> ((Script.program (depthFor tokens.length)) ⟨tokens, 1, []⟩).run :=
    ExceptT.run_map _ _
  exact ⟨Except.map Prod.fst outcome, by rw [forget, ran]; rfl⟩

end Replies

/-- What holds of each reader of expressions and of statements.  A `while` or `for` loop is read by the
reader of statements, where it finds their keyword. -/
structure EachReader (holds : ∀ {α : Type}, Parser α → Prop) (depth : Nat) : Prop where
  expression : ∀ level, holds (expressionAt depth level)
  expressions : holds (testList depth)
  simple : ∀ around, holds (smallForm depth around)
  line : ∀ around sameLine, holds (simpleLine around depth sameLine)
  block : ∀ around header, holds (block depth (statementAt depth) around header)
  branches : ∀ around, holds (branches depth (statementAt depth) around)
  definition : ∀ around, holds (definition depth (statementAt depth) around)
  statement : ∀ around, holds (statementAt depth around)

/-- Each loop of the readers replies if it is allowed one turn for every token there is room for. -/
structure EachLoop (room depth : Nat) : Prop where
  /-- The loops of an expression: over operands, comparisons, strings in a row, items, clauses,
  arguments, entries and trailers. -/
  rungs : ∀ level, Replies room (rule room (expressionAt depth) level)
  targets : ∀ line, Replies room (targetList room (expressionAt depth) line)
  tuples : Replies room (Parser.afterCommas room
    (do return (← Parser.atStatementEnd?) || (← Parser.at? .assign)) (expressionAt depth .conditional))
  assignments : Replies room (Parser.collect room (assignmentTurn depth))
  blocks : ∀ around, Replies room (Parser.collect room (blockTurn (statementAt depth) around))
  elifs : ∀ around, Replies room (Parser.collect room (elifTurn depth (statementAt depth) around))
  program : Replies room (Parser.collect room (programTurn (statementAt depth)))
  /-- A line hands its depth on to its statements, so what they need comes on top of the turns. -/
  lines : ∀ around least, (∀ inner, least ≤ inner → Replies room (smallForm inner around)) →
    ∀ sameLine, Replies room (simpleLine around (least + room) sameLine)
  parameters : ∀ least, (∀ inner, least ≤ inner → Replies room (expressionAt inner .conditional)) →
    ∀ earlier, Replies room (parameters (least + room) earlier)

theorem EachReader.progresses (depth : Nat) : EachReader Progresses depth :=
  have reads := fun around start => Yields.statementAt depth around start
  { expression := .expressionAt depth
    expressions := .testList depth
    simple := .smallForm depth
    line := .simpleLine depth
    block := .block reads depth
    branches := .branches reads depth
    definition := .definition reads depth
    statement := .statementAt depth }

variable {depth : Nat}

theorem EachReader.replies (enough : depthFor room ≤ depth) : EachReader (Replies room) depth := by
  rw [depthFor] at enough
  have within : 16 * room + 12 < depth := by omega
  have statement := fun around => Replies.statementAt within around
  have reads := fun around start => Yields.statementAt depth around start
  have inside := Nat.lt_of_succ_lt within
  exact {
    expression := .expression (Nat.lt_of_succ_lt inside)
    expressions := .testList (Nat.lt_of_succ_lt inside)
    simple := .smallForm (Nat.lt_of_succ_lt inside)
    line := .simpleLineWithin inside
    block := .block reads statement inside
    branches := fun around => (Replies.branches reads statement inside around).replies
    definition := fun around => (Replies.definition reads statement inside around).replies
    statement := statement }

theorem EachLoop.replies (enough : depthFor room ≤ depth) : EachLoop room depth := by
  have replies := EachReader.replies enough
  have reads := fun around start => Yields.statementAt depth around start
  rw [depthFor] at enough
  have inside : 16 * room + 11 < depth := by omega
  have within : 16 * room + 10 < depth := Nat.lt_of_succ_lt inside
  exact {
    rungs := fun level => by
      cases room with
      | zero => exact Replies.nowhere
      | succ room =>
          exact Replies.rule (Progresses.expressionAt depth)
            (fun level => (replies.expression level).mono (Nat.le_succ room)) (Nat.le_succ room) level
            fun other _ => replies.expression other
    targets := .targetList (Progresses.expressionAt depth) replies.expression (Nat.le_refl room)
    tuples := .tupleItems within (Nat.le_refl room)
    assignments := .collect (.assignmentTurn within) (.assignment depth) (Nat.le_refl room)
    blocks := fun around =>
      .collect (.blockTurn replies.statement around) (.block reads around) (Nat.le_refl room)
    elifs := fun around =>
      .collect (.elifTurn reads replies.statement inside around) (.elif reads depth around)
        (Nat.le_refl room)
    program := .collect (.programTurn replies.statement) (.program reads) (Nat.le_refl room)
    lines := fun around least simple sameLine =>
      .simpleLine around (fun passed _ => (simple _ (by omega)).mono (Nat.sub_le room passed))
        (Nat.le_add_left room least) sameLine
    parameters := fun least tests earlier =>
      .parameters (fun passed _ => (tests _ (by omega)).mono (Nat.sub_le room passed))
        (Nat.le_add_left room least) earlier }

/-- Each reader that answers has passed a token and not the end of the input, no loop takes more turns
than there are tokens, and each source is either read as a program or found to have a syntax error. -/
theorem readers_progress_and_reply :
    (∀ depth, EachReader Progresses depth) ∧
      (∀ room depth, depthFor room ≤ depth →
        EachReader (Replies room) depth ∧ EachLoop room depth) ∧
      (∀ tokens, (Cursor.mk tokens 1 []).Ended →
        ∃ outcome, Program.ofTokens? tokens = some outcome) ∧
      ∀ source, ∃ outcome, Program.parse? source = some outcome := by
  refine ⟨EachReader.progresses, fun room depth enough => ⟨.replies enough, .replies enough⟩,
    fun tokens => Replies.ofTokens?, fun source => ?_⟩
  rw [Program.parse?]
  split
  · exact ⟨_, rfl⟩
  · next tokens accepted =>
      have completes := completes_of_scan accepted
      obtain ⟨front, last, split, marks, -⟩ := completes.nesting Mode.initial_fits
      exact Replies.ofTokens? ⟨front, last, split, marks⟩

/-- In `while x: pass` the reader of statements gets to the end of the input. -/
theorem readers_progress_and_reply_whileLoop :
    ∃ front last, last.kind = .endOfInput ∧
      front.map Token.kind =
        [.keyword .whileWord, .name "x", .symbol .colon, .keyword .passWord, .newline] ∧
      (statementAt 112 ⟨false, false⟩ ⟨front ++ [last], 1, []⟩).run =
        some (.ok ([.mk 1 false (.whileLoop (.name "x") [.mk 1 true .pass])], ⟨[last], 1, []⟩)) ∧
      (Cursor.mk (front ++ [last]) 1 []).Forward ⟨[last], 1, []⟩ ∧
      RepliesAt ⟨front ++ [last], 1, []⟩ (Parser.collect 6 (programTurn (statementAt 112))) ∧
      ∃ outcome, Program.ofTokens? (front ++ [last]) = some outcome := by
  obtain ⟨progresses, replies, ofTokens, -⟩ := readers_progress_and_reply
  let last : Token := ⟨.endOfInput, 2, 1⟩
  let front : List Token := [⟨.keyword .whileWord, 1, 1⟩, ⟨.name "x", 1, 7⟩,
    ⟨.symbol .colon, 1, 8⟩, ⟨.keyword .passWord, 1, 10⟩, ⟨.newline, 1, 14⟩]
  have ended : (Cursor.mk (front ++ [last]) 1 []).Ended := ⟨front, last, rfl, rfl⟩
  have enough : depthFor 6 ≤ 112 := by decide
  refine ⟨front, last, rfl, rfl, rfl, ?_, ?_, ofTokens _ ended⟩
  · exact (progresses 112).statement ⟨false, false⟩ _ ended _ _ rfl
  · exact (replies 6 112 enough).2.program _ ended (Nat.le_refl 6)

end Stepwise.Script
