import Stepwise.Proofs.Parsing.Steps

/-!
How a program was read.

`Reads` relates the statements of a part of a program to the cursors that reading it started and
stopped at.  The readers are sound for it, and what holds of a cursor all along the way through a
program follows by induction on it.
-/

namespace Stepwise.Script

/-- The cursor is past a mark, or stays at the end of the input. -/
inductive Cursor.Ends (mark : TokenKind) : Cursor → Cursor → Prop where
  | mark {cursor : Cursor} : cursor.kind = mark → Ends mark cursor cursor.next
  | input {cursor : Cursor} : cursor.kind = .endOfInput → Ends mark cursor cursor

namespace Cursor

theorem Ends.steps {mark : TokenKind} {start finish : Cursor} (ends : start.Ends mark finish) :
    start.Steps finish := by
  cases ends with
  | mark _ => exact .next .rest
  | input _ => exact .rest

/-- The function that is taken up at a cursor when its body has been read. -/
def function (cursor : Cursor) (firstLine : Nat) (name : String) (parameters : List Parameter)
    (body : List Statement) : Definition where
  id := cursor.functions.length
  name := name
  parameters := parameters
  body := stripDocumentation body
  firstLine := firstLine
  lastLine := max cursor.lastLine firstLine
  locals := addBlockNames (parameters.map Parameter.name) (stripDocumentation body)

def define (cursor : Cursor) (definition : Definition) : Cursor :=
  { cursor with functions := cursor.functions ++ [definition] }

end Cursor

/-- From the first cursor to the second one, statements are read as a part of a program. -/
inductive Reads : Part → Surroundings → Cursor → List Statement → Cursor → Prop where
  | last {around : Surroundings} {start middle finish : Cursor} {sameLine : Bool} {form : Form} :
      form.fits around = true → start.Passes middle → middle.Ends .newline finish →
      Reads (.simple sameLine) around start [.mk start.line sameLine form] finish
  | semicolon {around : Surroundings} {start middle finish : Cursor} {sameLine : Bool} {form : Form}
      {rest : List Statement} : form.fits around = true → start.Passes middle →
      Reads (.simple true) around middle rest finish →
      Reads (.simple sameLine) around start (.mk start.line sameLine form :: rest) finish
  | simple {around : Surroundings} {start finish : Cursor} {statements : List Statement} :
      Reads (.simple false) around start statements finish →
      Reads .line around start statements finish
  | branch {around : Surroundings} {start middle inner finish : Cursor}
      {body orelse : List Statement} (test : Expr) : start.Passes middle →
      Reads .block around middle body inner → Reads .orelse around inner orelse finish →
      Reads .line around start [.mk start.line false (.branch test body orelse)] finish
  | whileLoop {around : Surroundings} {start middle finish : Cursor} {body : List Statement}
      (test : Expr) : start.Passes middle →
      Reads .block { around with inLoop := true } middle body finish →
      Reads .line around start [.mk start.line false (.whileLoop test body)] finish
  | forLoop {around : Surroundings} {start middle finish : Cursor} {body : List Statement}
      (target : Target) (iterable : Expr) : start.Passes middle →
      Reads .block { around with inLoop := true } middle body finish →
      Reads .line around start [.mk start.line false (.forLoop target iterable body)] finish
  | define {around : Surroundings} {start middle finish : Cursor} {parameters : List Parameter}
      {body : List Statement} (name : String) : around.inFunction = false →
      start.Passes middle → Listed parameters → Reads .block ⟨true, false⟩ middle body finish →
      Reads .line around start [.mk start.line false (.define finish.functions.length)]
        (finish.define (finish.function start.line name parameters body))
  | ended {around : Surroundings} {cursor : Cursor} : Reads .lines around cursor [] cursor
  | more {around : Surroundings} {start middle finish : Cursor} {first rest : List Statement} :
      Reads .line around start first middle → Reads .lines around middle rest finish →
      Reads .lines around start (first ++ rest) finish
  | inline {around : Surroundings} {start middle finish : Cursor} {body : List Statement} :
      start.Passes middle → Reads (.simple true) around middle body finish →
      Reads .block around start body finish
  | indented {around : Surroundings} {start middle inner finish : Cursor} {body : List Statement} :
      start.Passes middle → middle.kind = .newline → middle.next.kind = .indent →
      Reads .lines around middle.next.next body inner → inner.Ends .dedent finish →
      Reads .block around start body finish
  | omitted {around : Surroundings} {cursor : Cursor} : Reads .orelse around cursor [] cursor
  | elif {around : Surroundings} {start finish : Cursor} {orelse : List Statement} :
      Reads .line around start orelse finish → Reads .orelse around start orelse finish
  | otherwise {around : Surroundings} {start middle finish : Cursor} {orelse : List Statement} :
      start.Passes middle → Reads .block around middle orelse finish →
      Reads .orelse around start orelse finish

theorem Reads.lines {around : Surroundings} {start finish : Cursor} {lines : List (List Statement)}
    (chain : Chain (Reads .line around) start lines finish) :
    Reads .lines around start lines.flatten finish := by
  induction chain with
  | done => exact .ended
  | more first _ inductionHypothesis =>
      rw [List.flatten_cons]
      exact .more first inductionHypothesis

theorem TokenKind.eq_newline {kind : TokenKind} (found : (kind matches .newline) = true) :
    kind = .newline := by
  cases kind <;> first | rfl | cases found

theorem TokenKind.eq_indent {kind : TokenKind} (found : (kind matches .indent) = true) :
    kind = .indent := by
  cases kind <;> first | rfl | cases found

theorem TokenKind.eq_dedent {kind : TokenKind} (found : (kind matches .dedent) = true) :
    kind = .dedent := by
  cases kind <;> first | rfl | cases found

theorem TokenKind.eq_endOfInput {kind : TokenKind} (found : (kind matches .endOfInput) = true) :
    kind = .endOfInput := by
  cases kind <;> first | rfl | cases found

def Guards (around : Surroundings) (start : Cursor) (guarded : Nat × Expr × List Statement)
    (finish : Cursor) : Prop :=
  guarded.1 = start.line ∧
    ∃ middle, start.Passes middle ∧ Reads .block around middle guarded.2.2 finish

theorem Guards.chain {around : Surroundings} {start middle finish : Cursor}
    {guards : List (Nat × Expr × List Statement)} {last : List Statement}
    (chain : Chain (Guards around) start guards middle) (behind : Reads .orelse around middle last finish) :
    Reads .orelse around start (guards.foldr (fun guarded orelse =>
      [.mk guarded.1 false (.branch guarded.2.1 guarded.2.2 orelse)]) last) finish := by
  induction chain with
  | done => exact behind
  | more guards _ inductionHypothesis =>
      obtain ⟨here, inner, passes, body⟩ := guards
      rw [List.foldr_cons, here]
      exact .elif (.branch _ passes body (inductionHypothesis behind))

namespace Yields

theorem endOfLine {α : Type} {start : Cursor} (answer : α) :
    Yields start (do
      unless ← Parser.eatIf (· matches .newline) do
        unless (← Parser.peek) matches .endOfInput do Parser.fail .unexpected
      return answer) fun given finish => given = answer ∧ start.Ends .newline finish := by
  apply eatIf
  · intro found
    exact pure ⟨rfl, .mark (TokenKind.eq_newline found)⟩
  · intro _
    refine peek (provided _ _ fun found => ?_)
    exact pure ⟨rfl, .input (TokenKind.eq_endOfInput found)⟩

theorem simpleLine (depth : Nat) (around : Surroundings) (sameLine : Bool) (start : Cursor) :
    Yields start (Script.simpleLine around depth sameLine)
      (Reads (.simple sameLine) around start) := by
  let walk := stepping
  induction depth generalizing sameLine start with
  | zero => exact silent walk.outOfDepth
  | succ depth inductionHypothesis =>
      have small := (Consumes.smallForm depth around start).and (ofEnsures (walk.smallForm depth around))
      refine line (bind small fun form middle read => ?_)
      obtain ⟨passes, -, fits⟩ := read
      have single : ∀ next, middle.Steps next → ∀ statements finish,
          statements = [.mk start.line sameLine form] ∧ next.Ends .newline finish →
          Reads (.simple sameLine) around start statements finish := by
        rintro next steps _ finish ⟨rfl, ends⟩
        exact .last fits (passes.behind steps) ends
      apply eatIf
      · intro _
        apply peek
        split
        · exact (endOfLine _).weaken (single _ (.next .rest))
        · refine bind (inductionHypothesis true middle.next) fun rest finish reads => pure ?_
          exact .semicolon fits (passes.behind (.next .rest)) reads
      · intro _
        exact (endOfLine _).weaken (single middle .rest)

section

variable {statement : Surroundings → Parser (List Statement)}
  (reads : ∀ around start, Yields start (statement around) (Reads .line around start))

include reads

theorem innerLine (around : Surroundings) (start : Cursor) : Yields start (do
      match ← Parser.peek with
      | .dedent | .endOfInput => return none
      | _ => return some (← statement around))
    (Offers (fun cursor => cursor.kind = .dedent ∨ cursor.kind = .endOfInput) (Reads .line around)
      start) := by
  apply peek
  split <;> rename_i same
  · exact pure ⟨rfl, .inl same⟩
  · exact pure ⟨rfl, .inr same⟩
  · exact bind (reads around start) fun line finish reads => pure reads

theorem block (depth : Nat) (around : Surroundings) (header : String) (start : Cursor) :
    Yields start (Script.block depth statement around header) (Reads .block around start) := by
  refine line (expect .colon _ fun colon => ?_)
  have passes : start.Passes start.next := ⟨TokenKind.isWritten_of_isSymbol colon, .rest⟩
  apply eatIf
  · intro newline
    apply eatIf
    · intro indent
      refine bind (collect (innerLine reads around) depth _) fun lines inner chain => ?_
      obtain ⟨chain, ended⟩ := chain
      have block : ∀ finish, inner.Ends .dedent finish → Reads .block around start lines.flatten finish :=
        fun finish ends => .indented passes (TokenKind.eq_newline newline) (TokenKind.eq_indent indent)
          (.lines chain) ends
      rw [discard, map_const, Function.comp_apply, bind_map_left]
      apply eatIf
      · intro dedent
        exact pure (block inner.next (.mark (TokenKind.eq_dedent dedent)))
      · intro absent
        refine pure (block inner (.input ?_))
        rcases ended with dedent | ended
        · rw [dedent] at absent
          cases absent
        · exact ended
    · intro _
      exact silent (stepping.sequence stepping.line fun line => stepping.never (stepping.throw _))
  · intro _
    exact (simpleLine depth around true start.next).weaken fun body finish reads =>
      .inline passes reads

theorem guardedBlock (depth : Nat) (around : Surroundings) {start : Cursor}
    (kind : start.kind.isWritten = true) :
    Yields start (Script.guardedBlock depth statement around) (Guards around start) := by
  refine line (advance (sequence (stepping.expressionAt depth .conditional) fun test middle steps => ?_))
  refine bind (block reads depth around _ middle) fun body finish reads => pure ?_
  exact ⟨rfl, middle, ⟨kind, steps⟩, reads⟩

theorem branches (depth : Nat) (around : Surroundings) {start : Cursor}
    (kind : start.kind.isWritten = true) :
    Yields start (Script.branches depth statement around) (Reads .line around start) := by
  have elif : ∀ start, Yields start (do
      if ← Parser.atWord? .elifWord then return some (← Script.guardedBlock depth statement around)
      else return none) (Offers (fun cursor => cursor.kind.isKeyword .elifWord = false)
        (Guards around) start) := by
    intro start
    apply atWord?
    split <;> rename_i found
    · refine bind (guardedBlock reads depth around (TokenKind.isWritten_of_isKeyword found)) ?_
      exact fun guarded finish guards => pure guards
    · exact pure ⟨rfl, eq_false_of_ne_true found⟩
  refine bind (guardedBlock reads depth around kind) fun first second guards => ?_
  refine bind (collect elif depth second) fun rest third chain => ?_
  obtain ⟨here, middle, passes, body⟩ := guards
  have closes : ∀ last finish, Reads .orelse around third last finish → Reads .line around start
      ((first :: rest).foldr (fun guarded orelse =>
        [.mk guarded.1 false (.branch guarded.2.1 guarded.2.2 orelse)]) last) finish := by
    intro last finish behind
    rw [List.foldr_cons, here]
    exact .branch _ passes body (Guards.chain chain.1 behind)
  apply eatIf
  · intro found
    refine bind (block reads depth around _ third.next) fun last finish reads => pure ?_
    exact closes last finish (.otherwise ⟨TokenKind.isWritten_of_isKeyword found, .rest⟩ reads)
  · intro _
    exact pure (closes [] third .omitted)

theorem definition (depth : Nat) (around : Surroundings) {start : Cursor}
    (kind : start.kind.isWritten = true) :
    Yields start (Script.definition depth statement around) fun statement finish =>
      Reads .line around start [statement] finish := by
  let walk := stepping
  refine line (barring _ _ fun outside => advance ?_)
  refine sequence (walk.expectName _) fun name first toName => ?_
  refine sequence (walk.expect _ _) fun _ second toBracket => ?_
  refine bind (ofEnsures (walk.parameters depth .nil)) fun parameters third listed => ?_
  obtain ⟨toParameters, listed⟩ := listed
  refine sequence (walk.eat .arrow) fun arrow fourth toArrow => ?_
  refine skip arrow (walk.expressionAt depth .conditional) fun middle toResult => ?_
  have steps := toName.trans (toBracket.trans (toParameters.trans (toArrow.trans toResult)))
  rw [map_eq_pure_bind, bind_assoc]
  refine bind (block reads depth ⟨true, false⟩ "def" middle) fun body finish reads => ?_
  intro statement last ended
  cases ended
  exact .define name outside ⟨kind, steps⟩ listed reads

omit reads in
theorem rejectLoopElse {start : Cursor} :
    Yields start Script.rejectLoopElse fun _ finish => finish = start := by
  apply atWord?
  split
  · exact fail _
  · exact pure rfl

theorem statementRule (depth : Nat) (around : Surroundings) (start : Cursor) :
    Yields start (Script.statementRule depth statement around) (Reads .line around start) := by
  let walk := stepping
  refine line (peek ?_)
  split <;> rename_i same
  · exact branches reads depth around (by rw [same]; rfl)
  · refine advance (sequence (walk.expressionAt depth .conditional) fun test middle steps => ?_)
    refine bind (block reads depth _ _ middle) fun body finish reads => ?_
    refine bind rejectLoopElse fun _ last here => pure ?_
    rw [here]
    exact .whileLoop test ⟨by rw [same]; rfl, steps⟩ reads
  · apply advance
    refine sequence (walk.targetList (walk.expressionAt depth) depth _) fun target first toIn => ?_
    refine sequence (walk.eatWord .inWord) fun found second toIterable => ?_
    refine provided _ _ fun _ => ?_
    refine sequence (walk.testList depth) fun iterable middle toColon => ?_
    refine bind (block reads depth _ _ middle) fun body finish reads => ?_
    refine bind rejectLoopElse fun _ last here => pure ?_
    rw [here]
    exact .forLoop target iterable ⟨by rw [same]; rfl, toIn.trans (toIterable.trans toColon)⟩ reads
  · refine bind (definition reads depth around (by rw [same]; rfl)) fun statement finish reads => ?_
    exact pure reads
  · exact fail _
  · exact fail _
  · exact (simpleLine depth around false start).weaken fun _ _ reads => .simple reads

end

theorem statementAt (depth : Nat) (around : Surroundings) (start : Cursor) :
    Yields start (Script.statementAt depth around) (Reads .line around start) := by
  induction depth generalizing around start with
  | zero => exact silent stepping.outOfDepth
  | succ depth inductionHypothesis => exact statementRule inductionHypothesis depth around start

theorem programLine (depth : Nat) (start : Cursor) : Yields start (do
      match ← Parser.peek with
      | .endOfInput => return none
      | .indent => Parser.fail .unexpectedIndent
      | _ => return some (← Script.statementAt depth ⟨false, false⟩))
    (Offers (fun cursor => cursor.kind = .endOfInput) (Reads .line ⟨false, false⟩) start) := by
  apply peek
  split <;> rename_i same
  · exact pure ⟨rfl, same⟩
  · exact fail _
  · exact bind (statementAt depth _ start) fun line finish reads => pure reads

theorem program (depth : Nat) (start : Cursor) :
    Yields start (Script.program depth) fun program finish =>
      Reads .lines ⟨false, false⟩ start program.body finish ∧
        program.functions = finish.functions := by
  refine bind (collect (programLine depth) depth start) fun lines last chain => ?_
  intro answer finish ended
  cases ended
  exact ⟨.lines chain.1, rfl⟩

end Yields

/-- The statements of an accepted program are read from the tokens of its source, and its functions are
those that have been taken up on the way. -/
theorem Program.parse?_reads {source : String} {program : Program}
    (accepted : Program.parse? source = some (.ok program)) :
    ∃ tokens finish, tokenize source = .ok tokens ∧
      Reads .lines ⟨false, false⟩ ⟨tokens, 1, []⟩ program.body finish ∧
      program.functions = finish.functions := by
  unfold Program.parse? at accepted
  cases tokenized : tokenize source with
  | error error => rw [tokenized] at accepted; cases accepted
  | ok tokens =>
      rw [tokenized] at accepted
      simp only [Program.ofTokens?, StateT.run'_eq, ExceptT.run_map] at accepted
      obtain ⟨result, read, kept⟩ := Option.map_eq_some_iff.mp accepted
      cases result with
      | error error => cases kept
      | ok result =>
          cases kept
          exact ⟨tokens, result.2, rfl, Yields.program _ _ _ _ read⟩

theorem Cursor.next_functions (cursor : Cursor) : cursor.next.functions = cursor.functions := by
  unfold Cursor.next
  split <;> rfl

namespace Reads

variable {part : Part} {around : Surroundings} {start finish : Cursor} {statements : List Statement}

/-- What is read has the shape that the grammar of statements allows. -/
theorem shape (reads : Reads part around start statements finish) :
    Shape part around statements := by
  induction reads with
  | last fits _ _ => exact .last _ fits
  | semicolon fits _ _ rest => exact .semicolon _ fits rest
  | simple _ line => exact .simple line
  | branch test _ _ _ body orelse => exact .branch _ test body orelse
  | whileLoop test _ _ body => exact .whileLoop _ test body
  | forLoop target iterable _ _ body => exact .forLoop _ target iterable body
  | define _ outside _ _ _ _ => exact .define _ _ outside
  | ended => exact .ended
  | more _ _ first rest => exact .more first rest
  | inline _ _ line => exact .inline line
  | indented _ _ _ _ _ lines => exact .indented lines
  | omitted => exact .omitted
  | elif _ line => exact .elif line
  | otherwise _ _ block => exact .otherwise block

/-- What holds of a cursor holds at the end if it outlasts every step and every function that is taken
up behind its body. -/
theorem preserves (holds : Cursor → Prop) (next : ∀ cursor, holds cursor → holds cursor.next)
    (define : ∀ {start middle finish : Cursor} {parameters : List Parameter} {body : List Statement}
      (name : String), start.Passes middle → Listed parameters →
      Reads .block ⟨true, false⟩ middle body finish → holds start → holds middle → holds finish →
      holds (finish.define (finish.function start.line name parameters body)))
    (reads : Reads part around start statements finish) (begun : holds start) : holds finish := by
  have steps : ∀ {start finish : Cursor}, start.Steps finish → holds start → holds finish := by
    intro start finish steps begun
    induction steps with
    | rest => exact begun
    | next _ inductionHypothesis => exact inductionHypothesis (next _ begun)
  induction reads with
  | last _ passes ends => exact steps ends.steps (steps passes.toSteps begun)
  | semicolon _ passes _ rest => exact rest (steps passes.toSteps begun)
  | simple _ line => exact line begun
  | branch _ passes _ _ body orelse => exact orelse (body (steps passes.toSteps begun))
  | whileLoop _ passes _ body => exact body (steps passes.toSteps begun)
  | forLoop _ _ passes _ body => exact body (steps passes.toSteps begun)
  | define name _ passes listed reads body =>
      have inside := steps passes.toSteps begun
      exact define name passes listed reads begun inside (body inside)
  | ended => exact begun
  | more _ _ first rest => exact rest (first begun)
  | inline passes _ line => exact line (steps passes.toSteps begun)
  | indented passes _ _ _ ends lines =>
      exact steps ends.steps (lines (next _ (next _ (steps passes.toSteps begun))))
  | omitted => exact begun
  | elif _ line => exact line begun
  | otherwise passes _ block => exact block (steps passes.toSteps begun)

/-- What holds of every function that is taken up holds of all of them at the end. -/
theorem functions_all {good : Definition → Prop} (holds : Cursor → Prop)
    (next : ∀ cursor, holds cursor → holds cursor.next)
    (define : ∀ {start middle finish : Cursor} {parameters : List Parameter} {body : List Statement}
      (name : String), start.Passes middle → Listed parameters →
      Reads .block ⟨true, false⟩ middle body finish → holds start → holds finish →
      let function := finish.function start.line name parameters body
      holds (finish.define function) ∧ good function)
    (reads : Reads part around start statements finish) (begun : holds start)
    (all : ∀ definition ∈ start.functions, good definition) :
    ∀ definition ∈ finish.functions, good definition := by
  refine (reads.preserves (fun cursor => holds cursor ∧ ∀ definition ∈ cursor.functions,
    good definition) ?_ ?_ ⟨begun, all⟩).2
  · intro cursor held
    rw [cursor.next_functions]
    exact ⟨next cursor held.1, held.2⟩
  · intro start middle finish parameters body name passes listed reads before _ after
    obtain ⟨held, isGood⟩ := define name passes listed reads before.1 after.1
    refine ⟨held, fun definition member => ?_⟩
    rcases List.mem_append.mp member with member | member
    · exact after.2 definition member
    · rw [List.mem_singleton.mp member]
      exact isGood

end Reads

/-- The statements of an accepted program, and the bodies of its functions, are what the grammar of
statements allows. -/
theorem Program.parse?_shapes {source : String} {program : Program}
    (accepted : Program.parse? source = some (.ok program)) :
    Shape .lines ⟨false, false⟩ program.body ∧
      ∀ definition ∈ program.functions, definition.Shaped := by
  obtain ⟨tokens, finish, -, reads, same⟩ := Program.parse?_reads accepted
  refine ⟨reads.shape, same ▸ reads.functions_all (fun _ => True) (fun _ _ => trivial) ?_ trivial nofun⟩
  intro _ _ _ _ body _ _ _ reads _ _
  exact ⟨trivial, body, reads.shape, rfl⟩

end Stepwise.Script
