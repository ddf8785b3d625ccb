import Stepwise.Proofs.Gathering
import Stepwise.Proofs.Parsing.Layout
import Stepwise.Proofs.Parsing.Ranges

/-!
Which functions a program has, and that no line belongs to two of them.

A body takes up no functions, so the statements outside of functions bind all of them, in the order of
the table.  The last line of a block ends before anything else is read, so what is written behind a
function stands below it.
-/

namespace Stepwise.Script

theorem Cursor.Steps.functions {start finish : Cursor} (steps : start.Steps finish) :
    finish.functions = start.functions := by
  induction steps with
  | rest => rfl
  | next _ inductionHypothesis => exact inductionHypothesis.trans (Cursor.next_functions _)

theorem Cursor.Passes.functions {start finish : Cursor} (passes : start.Passes finish) :
    finish.functions = start.functions :=
  passes.toSteps.functions

/-- The numbers are those of the functions that are taken up from the first cursor to the second one,
in the order of the table. -/
def Cursor.Binds (start : Cursor) (ids : List Nat) (finish : Cursor) : Prop :=
  ∃ count, finish.functions.length = start.functions.length + count ∧
    ids = List.range' start.functions.length count

namespace Cursor.Binds

variable {start middle finish : Cursor} {first rest ids : List Nat}

theorem none (steps : start.Steps finish) : start.Binds [] finish :=
  ⟨0, by rw [steps.functions, Nat.add_zero], rfl⟩

theorem behind (binds : middle.Binds ids finish) (steps : start.Steps middle) :
    start.Binds ids finish := by
  obtain ⟨count, length, same⟩ := binds
  rw [steps.functions] at length same
  exact ⟨count, length, same⟩

theorem before (binds : start.Binds ids middle) (steps : middle.Steps finish) :
    start.Binds ids finish := by
  obtain ⟨count, length, same⟩ := binds
  exact ⟨count, by rw [steps.functions, length], same⟩

theorem append (binds : start.Binds first middle) (bindsOn : middle.Binds rest finish) :
    start.Binds (first ++ rest) finish := by
  obtain ⟨before, length, rfl⟩ := binds
  obtain ⟨after, lengthOn, rfl⟩ := bindsOn
  rw [length] at lengthOn
  refine ⟨before + after, by rw [lengthOn, Nat.add_assoc], ?_⟩
  rw [length, List.range'_append_1]

end Cursor.Binds

theorem gatherAll_of_fits {α : Type} (own : Form → List α) {around : Surroundings} {form : Form}
    (fits : form.fits around = true) (line : Nat) (sameLine : Bool) (rest : List Statement) :
    gatherAll own (.mk line sameLine form :: rest) = own form ++ gatherAll own rest := by
  rw [gatherAll, Statement.gather, gather_of_simple own (Form.hasBlock_of_fits fits)]

theorem Form.defined_of_fits {around : Surroundings} {form : Form}
    (fits : form.fits around = true) : form.defined = [] := by
  cases form <;> first | rfl | cases fits

namespace Reads

variable {part : Part} {around : Surroundings} {start finish : Cursor} {statements : List Statement}

theorem functions_eq (reads : Reads part around start statements finish)
    (inside : around.inFunction = true) : finish.functions = start.functions := by
  induction reads with
  | last _ passes ends => exact ends.steps.functions.trans passes.functions
  | semicolon _ passes _ rest => exact (rest inside).trans passes.functions
  | simple _ line => exact line inside
  | branch _ passes _ _ body orelse =>
      exact (orelse inside).trans ((body inside).trans passes.functions)
  | whileLoop _ passes _ body => exact (body inside).trans passes.functions
  | forLoop _ _ passes _ body => exact (body inside).trans passes.functions
  | define _ outside _ _ _ _ =>
      rw [inside] at outside
      cases outside
  | ended => rfl
  | more _ _ first rest => exact (rest inside).trans (first inside)
  | inline passes _ line => exact (line inside).trans passes.functions
  | indented passes _ _ _ ends lines =>
      rw [ends.steps.functions, lines inside, Cursor.next_functions, Cursor.next_functions,
        passes.functions]
  | omitted => rfl
  | elif _ line => exact line inside
  | otherwise passes _ block => exact (block inside).trans passes.functions

theorem functions_body {middle : Cursor} {body : List Statement} (passes : start.Passes middle)
    (reads : Reads .block ⟨true, false⟩ middle body finish) : finish.functions = start.functions :=
  (reads.functions_eq rfl).trans passes.functions

/-- Statements bind the functions that are taken up while they are read, in the order of the table. -/
theorem defined (reads : Reads part around start statements finish) :
    start.Binds (gatherAll Form.defined statements) finish := by
  induction reads with
  | last fits passes ends =>
      rw [gatherAll_of_fits Form.defined fits, Form.defined_of_fits fits]
      exact .none (passes.behind ends.steps).toSteps
  | semicolon fits passes _ rest =>
      rw [gatherAll_of_fits Form.defined fits, Form.defined_of_fits fits, List.nil_append]
      exact rest.behind passes.toSteps
  | simple _ line => exact line
  | branch test passes _ _ body orelse =>
      rw [gatherAll_singleton]
      exact (body.behind passes.toSteps).append orelse
  | whileLoop test passes _ body =>
      rw [gatherAll_singleton]
      exact body.behind passes.toSteps
  | forLoop target iterable passes _ body =>
      rw [gatherAll_singleton]
      exact body.behind passes.toSteps
  | define name _ passes _ reads _ =>
      refine ⟨1, ?_, ?_⟩
      · rw [Cursor.define, List.length_append, functions_body passes reads, List.length_singleton]
      · rw [functions_body passes reads]
        rfl
  | ended => exact .none .rest
  | more _ _ first rest =>
      rw [gatherAll_append]
      exact first.append rest
  | inline passes _ line => exact line.behind passes.toSteps
  | indented passes _ _ _ ends lines =>
      have steps := passes.toSteps.trans (.next (.next .rest))
      exact (lines.behind steps).before ends.steps
  | omitted => exact .none .rest
  | elif _ line => exact line
  | otherwise passes _ block => exact block.behind passes.toSteps

end Reads

namespace Cursor

def Laid (cursor : Cursor) : Prop := cursor.tokens.Pairwise Token.Precedes

def OnNewLine (cursor : Cursor) : Prop :=
  ∀ token ∈ cursor.tokens, token.kind.isWritten = true → cursor.lastLine < token.position.line

variable {start middle finish : Cursor}

theorem next_suffix (cursor : Cursor) : cursor.next.tokens <:+ cursor.tokens := by
  obtain ⟨tokens, lastLine, functions⟩ := cursor
  match tokens with
  | [] => exact List.suffix_rfl
  | [token] => exact List.suffix_rfl
  | token :: second :: rest => exact List.suffix_cons token (second :: rest)

theorem next_sublist (cursor : Cursor) : cursor.next.tokens.Sublist cursor.tokens :=
  cursor.next_suffix.sublist

theorem Laid.next (laid : start.Laid) : start.next.Laid := laid.sublist start.next_sublist

theorem Steps.laid (steps : start.Steps finish) (laid : start.Laid) : finish.Laid := by
  induction steps with
  | rest => exact laid
  | next _ inductionHypothesis => exact inductionHypothesis laid.next

theorem Laid.onNewLine_of_newline (laid : start.Laid) (newline : start.kind = .newline) :
    start.next.OnNewLine := by
  obtain ⟨tokens, lastLine, functions⟩ := start
  match tokens with
  | [] => cases newline
  | ⟨kind, position⟩ :: rest =>
      obtain rfl : kind = .newline := newline
      intro token member written
      have behind := (List.pairwise_cons.mp laid).1
      match rest with
      | [] =>
          rw [List.mem_singleton.mp member] at written
          cases written
      | second :: rest => exact behind token member written

theorem Laid.onNewLine_of_endOfInput (laid : start.Laid) (ended : start.kind = .endOfInput) :
    start.OnNewLine := by
  obtain ⟨tokens, lastLine, functions⟩ := start
  match tokens with
  | [] => exact nofun
  | ⟨kind, position⟩ :: rest =>
      obtain rfl : kind = .endOfInput := ended
      intro token member written
      rcases List.mem_cons.mp member with rfl | member
      · cases written
      · exact ((List.pairwise_cons.mp laid).1 token member written).elim

theorem OnNewLine.next (onNewLine : start.OnNewLine)
    (mark : start.kind = .indent ∨ start.kind = .dedent) : start.next.OnNewLine := by
  have kept : start.next.lastLine = start.lastLine := by
    obtain ⟨tokens, lastLine, functions⟩ := start
    match tokens with
    | [] => rfl
    | ⟨kind, position⟩ :: rest =>
        rcases mark with mark | mark
        · obtain rfl : kind = .indent := mark
          rfl
        · obtain rfl : kind = .dedent := mark
          rfl
  intro token member written
  rw [kept]
  exact onNewLine token (start.next_sublist.subset member) written

theorem Ends.onNewLine (ends : start.Ends .newline finish) (laid : start.Laid) :
    finish.OnNewLine := by
  cases ends with
  | mark newline => exact laid.onNewLine_of_newline newline
  | input ended => exact laid.onNewLine_of_endOfInput ended

theorem Ends.onNewLine_of_dedent (ends : start.Ends .dedent finish) (onNewLine : start.OnNewLine) :
    finish.OnNewLine := by
  cases ends with
  | mark dedent => exact onNewLine.next (.inr dedent)
  | input _ => exact onNewLine

end Cursor

def Part.mayBeEmpty : Part → Bool
  | .simple _ => false
  | .line => false
  | .lines => true
  | .block => false
  | .orelse => true

namespace Reads

variable {part : Part} {around : Surroundings} {start finish : Cursor} {statements : List Statement}

theorem laid (reads : Reads part around start statements finish) (laid : start.Laid) : finish.Laid :=
  reads.preserves Cursor.Laid (fun _ => .next) (fun _ _ _ _ _ _ => id) laid

theorem onNewLine (reads : Reads part around start statements finish) (laid : start.Laid)
    (begun : part.mayBeEmpty = true → start.OnNewLine) : finish.OnNewLine := by
  induction reads with
  | last _ passes ends => exact ends.onNewLine (passes.toSteps.laid laid)
  | semicolon _ passes _ rest => exact rest (passes.toSteps.laid laid) nofun
  | simple _ line => exact line laid nofun
  | branch _ passes body _ bodyEnd orelseEnd =>
      have inside := passes.toSteps.laid laid
      exact orelseEnd (body.laid inside) fun _ => bodyEnd inside nofun
  | whileLoop _ passes _ body => exact body (passes.toSteps.laid laid) nofun
  | forLoop _ _ passes _ body => exact body (passes.toSteps.laid laid) nofun
  | define _ _ passes _ _ body => exact body (passes.toSteps.laid laid) nofun
  | ended => exact begun rfl
  | more first _ firstEnd restEnd => exact restEnd (first.laid laid) fun _ => firstEnd laid nofun
  | inline passes _ line => exact line (passes.toSteps.laid laid) nofun
  | indented passes newline indent _ ends lines =>
      have outside := passes.toSteps.laid laid
      have below := (outside.onNewLine_of_newline newline).next (.inl indent)
      exact ends.onNewLine_of_dedent (lines outside.next.next fun _ => below)
  | omitted => exact begun rfl
  | elif _ line => exact line laid nofun
  | otherwise passes _ block => exact block (passes.toSteps.laid laid) nofun

end Reads

/-- The functions stand one below the other, and what is written ahead stands below all of them. -/
structure Cursor.Apart (cursor : Cursor) : Prop where
  functions : cursor.functions.Pairwise fun earlier later => earlier.lastLine < later.firstLine
  ahead : ∀ definition ∈ cursor.functions, ∀ token ∈ cursor.tokens, token.kind.isWritten = true →
    definition.lastLine < token.position.line

theorem Cursor.Apart.next {start : Cursor} (apart : start.Apart) : start.next.Apart := by
  refine ⟨?_, fun definition known token member => ?_⟩
  · rw [start.next_functions]
    exact apart.functions
  · rw [start.next_functions] at known
    exact apart.ahead definition known token (start.next_sublist.subset member)

/-- A function stands below the ones before it, and what is written behind it stands below it. -/
theorem Cursor.Apart.define {hasText : Nat → Prop} {start middle finish : Cursor}
    {body : List Statement} (apart : start.Apart) (ordered : start.Ordered hasText) (laid : start.Laid)
    (passes : start.Passes middle) (reads : Reads .block ⟨true, false⟩ middle body finish)
    (behind : finish.Apart) (name : String) (parameters : List Parameter) :
    (finish.define (finish.function start.line name parameters body)).Apart := by
  have inside := passes.toSteps.advances ordered
  have header : start.line ≤ finish.lastLine :=
    Nat.le_trans (passes.line_le ordered) (reads.advances inside.ordered).lastLine
  have onNewLine := reads.onNewLine (passes.toSteps.laid laid) nofun
  refine ⟨List.pairwise_append.mpr ⟨behind.functions, List.pairwise_singleton _ _, ?_⟩, ?_⟩
  · intro earlier member later new
    rw [List.mem_singleton.mp new]
    rw [Reads.functions_body passes reads] at member
    -- the header starts with a written token, which the earlier functions stand above
    obtain ⟨token, atStart, written, line⟩ := Cursor.exists_written passes.written
    exact line ▸ apart.ahead earlier member token atStart written
  · intro definition member token atEnd written
    rcases List.mem_append.mp member with member | member
    · exact behind.ahead definition member token atEnd written
    · rw [List.mem_singleton.mp member]
      have below : finish.lastLine < token.position.line := onNewLine token atEnd written
      exact Nat.max_lt.mpr ⟨below, Nat.lt_of_le_of_lt header below⟩

theorem Reads.apart {hasText : Nat → Prop} {part : Part} {around : Surroundings}
    {start finish : Cursor} {statements : List Statement}
    (reads : Reads part around start statements finish) (ordered : start.Ordered hasText)
    (laid : start.Laid) (apart : start.Apart) : finish.Apart := by
  refine (reads.preserves (fun cursor => cursor.Ordered hasText ∧ cursor.Laid ∧ cursor.Apart) ?_ ?_
    ⟨ordered, laid, apart⟩).2.2
  · rintro cursor ⟨ordered, laid, apart⟩
    exact ⟨ordered.next.ordered, laid.next, apart.next⟩
  · rintro start middle finish parameters body name passes _ reads ⟨ordered, laid, apart⟩ -
      ⟨orderedEnd, laidEnd, apartEnd⟩
    exact ⟨(orderedEnd.define _).ordered, laidEnd,
      apart.define ordered laid passes reads apartEnd name parameters⟩

end Stepwise.Script
