import Stepwise.Proofs.Correspondence.Level
import Stepwise.Proofs.Parsing.Shape

/-!
Which line was reported last when a statement starts.

A statement that is not reported on its own is carried by the line that was reported before it.
Which line that is can be read off the program, because the parser never marks a statement that
follows a block.
-/

namespace Stepwise.Script

def Statement.isReported (statement : Statement) : Bool :=
  Run.isLoop statement.form || !statement.sameLine

/-- The line reported last when a statement starts, given the line reported before it. -/
def Statement.carrier (before : Option Nat) (statement : Statement) : Option Nat :=
  if statement.isReported then some statement.line else before

mutual

/-- A statement and the statements in its blocks, each with the line reported last when it starts;
`before` is the line reported before the first one. -/
def Statement.positions (before : Option Nat) : Statement → List (Statement × Option Nat)
  | .mk line sameLine form =>
      let carrier := Statement.carrier before (.mk line sameLine form)
      (.mk line sameLine form, carrier) :: form.positions carrier

/-- The statements in the blocks of a form, each with the line reported last when it starts. -/
def Form.positions (before : Option Nat) : Form → List (Statement × Option Nat)
  | .branch _ body orelse => blockPositions before body ++ blockPositions before orelse
  | .whileLoop _ body => blockPositions before body
  | .forLoop _ _ body => blockPositions before body
  | _ => []

def blockPositions (before : Option Nat) : List Statement → List (Statement × Option Nat)
  | [] => []
  | statement :: rest =>
      statement.positions before ++ blockPositions (statement.carrier before) rest

end

/-- The statements of a function, each with the line reported last when it starts. -/
def Definition.positions (definition : Definition) : List (Statement × Option Nat) :=
  blockPositions none definition.body

/-- Every statement of a function is carried by its own line, apart from those on the line of the
header. -/
def Definition.Reported (definition : Definition) : Prop :=
  ∀ position ∈ definition.positions,
    position.1.line = definition.firstLine ∨ position.2 = some position.1.line

instance (definition : Definition) : Decidable definition.Reported :=
  inferInstanceAs (Decidable (∀ position ∈ definition.positions, _))

/-- A frame of the function can end on a line after it reported `last`: nothing has run, or a statement
on that line is carried by `last`. -/
def Definition.Halts (definition : Definition) (line : Nat) (last : Option Nat) : Prop :=
  (line = definition.firstLine ∧ last = none) ∨
    ∃ position ∈ definition.positions, position.1.line = line ∧ position.2 = last

theorem Definition.Reported.halts {definition : Definition} (reported : definition.Reported)
    {line : Nat} {last : Option Nat} (halts : definition.Halts line last) :
    line = definition.firstLine ∨ last = some line := by
  rcases halts with ⟨header, _⟩ | ⟨position, member, rfl, rfl⟩
  · exact .inl header
  · exact reported position member

theorem Statement.positions_eq (before : Option Nat) (statement : Statement) :
    statement.positions before =
      (statement, statement.carrier before) ::
        statement.form.positions (statement.carrier before) := by
  obtain ⟨line, sameLine, form⟩ := statement
  rw [Statement.positions]
  rfl

theorem Form.positions_branch (before : Option Nat) (test : Expr) (body orelse : List Statement) :
    (Form.branch test body orelse).positions before =
      blockPositions before body ++ blockPositions before orelse := by
  rw [Form.positions]

theorem Statement.mem_positions (before : Option Nat) (statement : Statement) :
    (statement, statement.carrier before) ∈ statement.positions before := by
  rw [statement.positions_eq]
  exact List.mem_cons_self

/-- What stands in a block of a statement stands in every block that starts with the statement. -/
theorem mem_blockPositions_of_inner {before : Option Nat} {statement : Statement}
    {position : Statement × Option Nat}
    (inner : position ∈ statement.form.positions (statement.carrier before)) (rest : List Statement) :
    position ∈ blockPositions before (statement :: rest) := by
  rw [blockPositions, statement.positions_eq]
  exact List.mem_append_left _ (List.mem_cons_of_mem _ inner)

def Fresh (block : List Statement) : Prop := ∀ first ∈ block.head?, first.isReported = true

inductive Marked : List Statement → Prop where
  | nil : Marked []
  | simple {form : Form} {rest : List Statement} (line : Nat) (sameLine : Bool) :
      form.hasBlock = false → Marked rest → Marked (.mk line sameLine form :: rest)
  | branch {body orelse rest : List Statement} (line : Nat) (sameLine : Bool) (test : Expr) :
      Marked body → Marked orelse → Fresh rest → Marked rest →
      Marked (.mk line sameLine (.branch test body orelse) :: rest)
  | whileLoop {body rest : List Statement} (line : Nat) (sameLine : Bool) (test : Expr) :
      Marked body → Fresh rest → Marked rest →
      Marked (.mk line sameLine (.whileLoop test body) :: rest)
  | forLoop {body rest : List Statement} (line : Nat) (sameLine : Bool) (target : Target)
      (iterable : Expr) : Marked body → Fresh rest → Marked rest →
      Marked (.mk line sameLine (.forLoop target iterable body) :: rest)

theorem Marked.tail {first : Statement} {rest : List Statement} (marked : Marked (first :: rest)) :
    Marked rest := by
  cases marked <;> assumption

/-- Before a block that starts with a report it does not matter what was reported. -/
theorem Fresh.blockPositions_eq {block : List Statement} (fresh : Fresh block)
    (before other : Option Nat) : blockPositions before block = blockPositions other block := by
  cases block with
  | nil => rfl
  | cons first rest =>
      have reported : first.isReported = true := fresh first rfl
      have same : first.carrier before = first.carrier other := by
        simp only [Statement.carrier, reported, if_true]
      simp only [blockPositions, Statement.positions_eq, same]

theorem Fresh.append {first rest : List Statement} (fresh : Fresh first) (freshRest : Fresh rest) :
    Fresh (first ++ rest) := by
  cases first with
  | nil => exact freshRest
  | cons statement others => exact fresh

theorem Marked.append {first rest : List Statement} (marked : Marked first)
    (markedRest : Marked rest) (freshRest : Fresh rest) : Marked (first ++ rest) := by
  induction marked with
  | nil => exact markedRest
  | simple line sameLine simple _ inductionHypothesis =>
      exact .simple line sameLine simple inductionHypothesis
  | branch line sameLine test body orelse fresh _ _ _ inductionHypothesis =>
      exact .branch line sameLine test body orelse (fresh.append freshRest) inductionHypothesis
  | whileLoop line sameLine test body fresh _ _ inductionHypothesis =>
      exact .whileLoop line sameLine test body (fresh.append freshRest) inductionHypothesis
  | forLoop line sameLine target iterable body fresh _ _ inductionHypothesis =>
      exact .forLoop line sameLine target iterable body (fresh.append freshRest) inductionHypothesis

theorem Form.hasBlock_of_fits {around : Surroundings} {form : Form}
    (fits : form.fits around = true) : form.hasBlock = false := by
  cases form with
  | branch => cases fits
  | whileLoop => cases fits
  | forLoop => cases fits
  | _ => rfl

def Part.reports : Part → Bool
  | .simple sameLine => !sameLine
  | .line => true
  | .lines => true
  | .block => false
  | .orelse => false

theorem Fresh.single {statement : Statement} (reported : statement.isReported = true) :
    Fresh [statement] := by
  intro first same
  cases same
  exact reported

/-- A line starts with a report, and so does every statement after a block. -/
theorem Shape.marked {part : Part} {around : Surroundings} {block : List Statement}
    (shape : Shape part around block) :
    Marked block ∧ (part.reports = true → Fresh block) := by
  have alone : Fresh [] := nofun
  have reported : ∀ line form, Statement.isReported (.mk line false form) = true :=
    fun line form => Bool.or_true _
  -- the second half carries the first: what is joined to a line is marked well if it is fresh
  induction shape with
  | last line fits =>
      refine ⟨.simple line _ (Form.hasBlock_of_fits fits) .nil, fun reports => .single ?_⟩
      exact Bool.or_eq_true_iff.mpr (.inr reports)
  | semicolon line fits _ inductionHypothesis =>
      refine ⟨.simple line _ (Form.hasBlock_of_fits fits) inductionHypothesis.1, ?_⟩
      intro reports first same
      cases same
      exact Bool.or_eq_true_iff.mpr (.inr reports)
  | simple _ inductionHypothesis =>
      exact ⟨inductionHypothesis.1, fun _ => inductionHypothesis.2 rfl⟩
  | branch line test _ _ body orelse =>
      exact ⟨.branch line false test body.1 orelse.1 alone .nil, fun _ => .single (reported _ _)⟩
  | whileLoop line test _ body =>
      exact ⟨.whileLoop line false test body.1 alone .nil, fun _ => .single (reported _ _)⟩
  | forLoop line target iterable _ body =>
      exact ⟨.forLoop line false target iterable body.1 alone .nil, fun _ => .single (reported _ _)⟩
  | define line id _ => exact ⟨.simple line false rfl .nil, fun _ => .single (reported _ _)⟩
  | ended => exact ⟨.nil, fun _ => alone⟩
  | more _ _ first rest =>
      have fresh := rest.2 rfl
      exact ⟨first.1.append rest.1 fresh, fun _ => (first.2 rfl).append fresh⟩
  | inline _ inductionHypothesis => exact ⟨inductionHypothesis.1, nofun⟩
  | indented _ inductionHypothesis => exact ⟨inductionHypothesis.1, nofun⟩
  | omitted => exact ⟨.nil, nofun⟩
  | elif _ inductionHypothesis => exact ⟨inductionHypothesis.1, nofun⟩
  | otherwise _ inductionHypothesis => exact ⟨inductionHypothesis.1, nofun⟩

theorem Marked.onOwnLine {first : Statement} {rest : List Statement}
    (marked : Marked (first :: rest)) : Marked (first.onOwnLine :: rest) := by
  cases marked with
  | simple line sameLine simple rest => exact .simple line false simple rest
  | branch line sameLine test body orelse fresh rest =>
      exact .branch line false test body orelse fresh rest
  | whileLoop line sameLine test body fresh rest =>
      exact .whileLoop line false test body fresh rest
  | forLoop line sameLine target iterable body fresh rest =>
      exact .forLoop line false target iterable body fresh rest

theorem Definition.Shaped.marked {definition : Definition} (shaped : definition.Shaped) :
    Marked definition.body := by
  obtain ⟨body, shape, same⟩ := shaped
  have marked := shape.marked.1
  rw [same]
  unfold stripDocumentation
  split
  · cases marked with
    | simple _ _ _ rest => exact rest.onOwnLine
  · exact marked

end Stepwise.Script
