import Stepwise.Proofs.Blocks
import Stepwise.Proofs.Parsing.Reading

/-!
The lines of parsed statements.

Reading goes down the lines of the source, so a statement lies between the line that reading it starts
on and the last line that was read.  Every statement starts on a token that is written in the source.
-/

namespace Stepwise.Script

/-- A statement lies on one of some lines and between two of them.  A function that it binds has a
number below a bound. -/
structure Statement.Lies (hasText : Nat → Prop) (first last functions : Nat)
    (statement : Statement) : Prop where
  first : first ≤ statement.line
  last : statement.line ≤ last
  written : hasText statement.line
  define : ∀ id, statement.form = .define id → id < functions

/-- The tokens ahead go down the lines from the last one that was read. -/
structure Cursor.Ordered (hasText : Nat → Prop) (cursor : Cursor) : Prop where
  tokens : cursor.tokens.Pairwise fun earlier later => earlier.position.line ≤ later.position.line
  ahead : ∀ token ∈ cursor.tokens, cursor.lastLine ≤ token.position.line
  written : ∀ token ∈ cursor.tokens, token.kind.isWritten = true → hasText token.position.line

structure Cursor.Advances (hasText : Nat → Prop) (start finish : Cursor) : Prop where
  ordered : finish.Ordered hasText
  lastLine : start.lastLine ≤ finish.lastLine
  line : start.line ≤ finish.line
  functions : start.functions.length ≤ finish.functions.length

namespace Cursor

variable {hasText : Nat → Prop} {start middle finish : Cursor}

theorem Advances.refl (ordered : start.Ordered hasText) : start.Advances hasText start :=
  ⟨ordered, Nat.le_refl _, Nat.le_refl _, Nat.le_refl _⟩

theorem Advances.trans (before : start.Advances hasText middle)
    (after : middle.Advances hasText finish) : start.Advances hasText finish :=
  ⟨after.ordered, Nat.le_trans before.lastLine after.lastLine, Nat.le_trans before.line after.line,
    Nat.le_trans before.functions after.functions⟩

theorem exists_written (kind : start.kind.isWritten = true) :
    ∃ token ∈ start.tokens, token.kind.isWritten = true ∧ token.position.line = start.line := by
  obtain ⟨tokens, lastLine, functions⟩ := start
  cases tokens with
  | nil => cases kind
  | cons token rest => exact ⟨token, List.mem_cons_self, kind, rfl⟩

theorem Ordered.written_line (ordered : start.Ordered hasText) (kind : start.kind.isWritten = true) :
    hasText start.line := by
  obtain ⟨token, member, written, line⟩ := exists_written kind
  exact line ▸ ordered.written token member written

theorem Ordered.next (ordered : start.Ordered hasText) : start.Advances hasText start.next := by
  obtain ⟨tokens, lastLine, functions⟩ := start
  cases tokens with
  | nil => exact .refl ordered
  | cons token rest =>
      obtain ⟨sorted, ahead, texts⟩ := ordered
      have here : lastLine ≤ token.position.line := ahead token List.mem_cons_self
      have below := (List.pairwise_cons.mp sorted).1
      -- the line of a layout token is not remembered, and that of any other one is
      obtain ⟨read, moved, after, before⟩ : ∃ read,
          Cursor.next ⟨token :: rest, lastLine, functions⟩ =
            ⟨if rest.isEmpty then [token] else rest, read, functions⟩ ∧
          lastLine ≤ read ∧ read ≤ token.position.line := by
        refine ⟨_, rfl, ?_, ?_⟩ <;> split
        all_goals first | exact here | exact Nat.le_refl _
      rw [moved]
      cases rest with
      | nil =>
          refine ⟨⟨sorted, ?_, texts⟩, after, Nat.le_refl _, Nat.le_refl _⟩
          intro other member
          rw [List.mem_singleton.mp member]
          exact before
      | cons second rest =>
          refine ⟨⟨(List.pairwise_cons.mp sorted).2, ?_, ?_⟩, after, below second List.mem_cons_self,
            Nat.le_refl _⟩
          · intro other member
            exact Nat.le_trans before (below other member)
          · intro other member
            exact texts other (List.mem_cons_of_mem _ member)

theorem Ordered.define (ordered : start.Ordered hasText) (definition : Definition) :
    start.Advances hasText (start.define definition) := by
  refine ⟨⟨ordered.tokens, ordered.ahead, ordered.written⟩, Nat.le_refl _, Nat.le_refl _, ?_⟩
  simp only [Cursor.define, List.length_append]
  exact Nat.le_add_right _ _

end Cursor

def downward (hasText : Nat → Prop) : Walk where
  Leads start finish := start.Ordered hasText → start.Advances hasText finish
  stay _ := .refl
  trans before after ordered := (before ordered).trans (after (before ordered).ordered)
  next _ ordered := ordered.next

namespace Cursor

variable {hasText : Nat → Prop} {start middle finish : Cursor}

theorem Steps.advances (steps : start.Steps finish) (ordered : start.Ordered hasText) :
    start.Advances hasText finish :=
  steps.leads (downward hasText) ordered

theorem Passes.line_le (passes : start.Passes finish) (ordered : start.Ordered hasText) :
    start.line ≤ finish.lastLine := by
  refine Nat.le_trans ?_ (passes.steps.advances ordered.next.ordered).lastLine
  have kind := passes.written
  obtain ⟨tokens, lastLine, functions⟩ := start
  cases tokens with
  | nil => cases kind
  | cons token rest =>
      obtain ⟨tokenKind, position⟩ := token
      cases tokenKind <;> first | exact Nat.le_refl _ | cases kind

/-- A statement lies on the line of its first token, whatever is read behind that. -/
theorem Passes.lies (passes : start.Passes middle) (ordered : start.Ordered hasText)
    (after : middle.Advances hasText finish) (sameLine : Bool) {form : Form}
    (binds : ∀ id, form ≠ .define id) : Statement.Lies hasText start.line finish.lastLine
      finish.functions.length (.mk start.line sameLine form) :=
  ⟨Nat.le_refl _, Nat.le_trans (passes.line_le ordered) after.lastLine,
    ordered.written_line passes.written, fun id defines => (binds id defines).elim⟩

end Cursor

theorem Statement.Lies.mono {hasText : Nat → Prop} {start middle finish last : Cursor}
    {statement : Statement}
    (lies : statement.Lies hasText middle.line finish.lastLine finish.functions.length)
    (before : start.line ≤ middle.line) (after : finish.Advances hasText last) :
    statement.Lies hasText start.line last.lastLine last.functions.length :=
  ⟨Nat.le_trans before lies.first, Nat.le_trans lies.last after.lastLine, lies.written,
    fun id defines => Nat.lt_of_lt_of_le (lies.define id defines) after.functions⟩

abbrev Cursor.Spans (hasText : Nat → Prop) (start finish : Cursor) (inLoop : Bool)
    (block : List Statement) : Prop :=
  Everywhere (fun _ statement =>
    statement.Lies hasText start.line finish.lastLine finish.functions.length) inLoop block

theorem Cursor.Spans.mono {hasText : Nat → Prop} {start middle finish last : Cursor} {inLoop : Bool}
    {block : List Statement} (spans : middle.Spans hasText finish inLoop block)
    (before : start.line ≤ middle.line) (after : finish.Advances hasText last) :
    start.Spans hasText last inLoop block :=
  Everywhere.mono spans fun _ _ lies => lies.mono before after

/-- Statements that lie behind a cursor lie behind those before it. -/
theorem Cursor.Spans.behind {hasText : Nat → Prop} {start middle finish : Cursor} {inLoop : Bool}
    {block : List Statement} (spans : middle.Spans hasText finish inLoop block)
    (before : start.Advances hasText middle) (after : middle.Advances hasText finish) :
    start.Spans hasText finish inLoop block :=
  spans.mono before.line (.refl after.ordered)

theorem Form.ne_define_of_fits {around : Surroundings} {form : Form}
    (fits : form.fits around = true) (id : Nat) : form ≠ .define id := by
  rintro rfl
  cases fits

namespace Reads

variable {hasText : Nat → Prop} {part : Part} {around : Surroundings} {start finish : Cursor}
  {statements : List Statement}

theorem advances (reads : Reads part around start statements finish)
    (ordered : start.Ordered hasText) : start.Advances hasText finish := by
  refine reads.preserves (fun cursor => start.Advances hasText cursor) ?_ ?_ (.refl ordered)
  · intro cursor advances
    exact advances.trans advances.ordered.next
  · intro _ _ finish parameters body name _ _ _ _ _ advances
    exact advances.trans (advances.ordered.define _)

/-- Statements lie between the cursors that reading them starts and stops at. -/
theorem spans (reads : Reads part around start statements finish) (ordered : start.Ordered hasText) :
    start.Spans hasText finish around.inLoop statements := by
  induction reads with
  | last fits passes ends =>
      have after := ends.steps.advances (passes.toSteps.advances ordered).ordered
      exact .simple _ _ (Form.hasBlock_of_fits fits)
        (passes.lies ordered after _ (Form.ne_define_of_fits fits)) .nil
  | semicolon fits passes rest restSpans =>
      have inside := passes.toSteps.advances ordered
      have after := rest.advances inside.ordered
      exact .simple _ _ (Form.hasBlock_of_fits fits)
        (passes.lies ordered after _ (Form.ne_define_of_fits fits))
        ((restSpans inside.ordered).behind inside after)
  | simple _ lineSpans => exact lineSpans ordered
  | branch test passes body orelse bodySpans orelseSpans =>
      have inside := passes.toSteps.advances ordered
      have between := body.advances inside.ordered
      have after := orelse.advances between.ordered
      exact .branch _ false test (passes.lies ordered (between.trans after) _ nofun)
        ((bodySpans inside.ordered).mono inside.line after)
        ((orelseSpans between.ordered).behind (inside.trans between) after) .nil
  | whileLoop test passes body bodySpans =>
      have inside := passes.toSteps.advances ordered
      have after := body.advances inside.ordered
      exact .whileLoop _ false test (passes.lies ordered after _ nofun)
        ((bodySpans inside.ordered).behind inside after) .nil
  | forLoop target iterable passes body bodySpans =>
      have inside := passes.toSteps.advances ordered
      have after := body.advances inside.ordered
      exact .forLoop _ false target iterable (passes.lies ordered after _ nofun)
        ((bodySpans inside.ordered).behind inside after) .nil
  | @define _ start _ finish _ _ _ _ passes _ body _ =>
      have after := body.advances (passes.toSteps.advances ordered).ordered
      have own : Statement.Lies hasText start.line finish.lastLine finish.functions.length
          (.mk start.line false .pass) := passes.lies ordered after false nofun
      refine .simple _ false rfl ⟨own.first, own.last, own.written, ?_⟩ .nil
      rintro id ⟨⟩
      simp only [Cursor.define, List.length_append, List.length_singleton]
      exact Nat.lt_succ_self _
  | ended => exact .nil
  | more first rest firstSpans restSpans =>
      have between := first.advances ordered
      have after := rest.advances between.ordered
      exact Everywhere.append ((firstSpans ordered).mono (Nat.le_refl _) after)
        ((restSpans between.ordered).behind between after)
  | inline passes body bodySpans =>
      have inside := passes.toSteps.advances ordered
      have after := body.advances inside.ordered
      exact (bodySpans inside.ordered).behind inside after
  | indented passes _ _ body ends bodySpans =>
      have outside := passes.toSteps.advances ordered
      have inside := outside.trans (Cursor.Steps.advances (.next (.next .rest)) outside.ordered)
      have after := body.advances inside.ordered
      exact (bodySpans inside.ordered).mono inside.line (ends.steps.advances after.ordered)
  | omitted => exact .nil
  | elif _ lineSpans => exact lineSpans ordered
  | otherwise passes body bodySpans =>
      have inside := passes.toSteps.advances ordered
      have after := body.advances inside.ordered
      exact (bodySpans inside.ordered).behind inside after

end Reads

end Stepwise.Script
