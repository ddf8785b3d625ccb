import Mathlib
import Stepwise.Proofs.Blocks
import Stepwise.Proofs.Lexing.Hollow
import Stepwise.Proofs.Parsing.Apart

/-!
Blocks with statements in them.

The lines of an indented block are read from behind an indent up to a dedent.  They are at least one if
nothing but a statement can stand behind the indent, and that fails only for a line without a token.
-/

namespace Stepwise.Script

def Form.Filled : Form → Prop
  | .branch _ body _ => body ≠ []
  | .whileLoop _ body => body ≠ []
  | .forLoop _ _ body => body ≠ []
  | _ => True

theorem Form.filled_of_simple {form : Form} (simple : form.hasBlock = false) : form.Filled := by
  cases form <;> trivial

abbrev AllFilled (inLoop : Bool) (block : List Statement) : Prop :=
  Everywhere (fun _ statement => statement.form.Filled) inLoop block

/-- All blocks of a program have statements in them, at any depth. -/
structure Program.Filled (program : Program) : Prop where
  body : AllFilled false program.body
  functions : ∀ definition ∈ program.functions,
    definition.body ≠ [] ∧ AllFilled false definition.body

theorem stripDocumentation_ne_nil {body : List Statement} (filled : body ≠ []) :
    stripDocumentation body ≠ [] := by
  unfold stripDocumentation
  split
  · exact List.cons_ne_nil _ _
  · exact filled

def Cursor.Solid (cursor : Cursor) : Prop :=
  ∀ opening following, [opening, following] <:+: cursor.tokens → opening.kind = .indent →
    following.kind ≠ .dedent ∧ following.kind ≠ .endOfInput

namespace Cursor

variable {start finish cursor : Cursor}

theorem Solid.next (solid : cursor.Solid) : cursor.next.Solid := fun opening following adjacent =>
  solid opening following (adjacent.trans cursor.next_suffix.isInfix)

theorem Steps.solid (steps : start.Steps finish) (solid : start.Solid) : finish.Solid := by
  induction steps with
  | rest => exact solid
  | next _ inductionHypothesis => exact inductionHypothesis solid.next

theorem Solid.next_kind (solid : cursor.Solid) (indent : cursor.kind = .indent) :
    cursor.next.kind ≠ .dedent ∧ cursor.next.kind ≠ .endOfInput := by
  obtain ⟨tokens, lastLine, functions⟩ := cursor
  match tokens with
  | [] => cases indent
  | [⟨kind, position⟩] =>
      obtain rfl : kind = .indent := indent
      exact ⟨nofun, nofun⟩
  | opening :: following :: rest =>
      exact solid opening following ⟨[], rest, rfl⟩ indent

end Cursor

namespace Reads

variable {part : Part} {around : Surroundings} {start finish : Cursor} {statements : List Statement}

theorem solid (reads : Reads part around start statements finish) (solid : start.Solid) :
    finish.Solid :=
  reads.preserves Cursor.Solid (fun _ => .next) (fun _ _ _ _ _ _ => id) solid

theorem of_nil (reads : Reads part around start statements finish) (solid : start.Solid)
    (empty : statements = []) : part.mayBeEmpty = true ∧ finish = start := by
  induction reads with
  | last => cases empty
  | semicolon => cases empty
  | simple _ line => exact line solid empty
  | branch => cases empty
  | whileLoop => cases empty
  | forLoop => cases empty
  | define => cases empty
  | ended => exact ⟨rfl, rfl⟩
  | more _ _ first _ =>
      have absent := (first solid (List.append_eq_nil_iff.mp empty).1).1
      cases absent
  | inline passes _ line =>
      have absent := (line (passes.toSteps.solid solid) empty).1
      cases absent
  | @indented _ start middle inner finish _ passes _ indent _ ends lines =>
      -- the block ends right behind its indent
      have outside := passes.toSteps.solid solid
      obtain ⟨-, rfl⟩ := lines outside.next.next empty
      obtain ⟨dedent, ended⟩ := outside.next.next_kind indent
      cases ends with
      | mark found => exact absurd found dedent
      | input found => exact absurd found ended
  | omitted => exact ⟨rfl, rfl⟩
  | elif _ line =>
      have absent := (line solid empty).1
      cases absent
  | otherwise passes _ block =>
      have absent := (block (passes.toSteps.solid solid) empty).1
      cases absent

theorem block_ne_nil (reads : Reads .block around start statements finish) (solid : start.Solid) :
    statements ≠ [] := by
  intro empty
  cases (reads.of_nil solid empty).1

theorem allFilled (reads : Reads part around start statements finish) (solid : start.Solid) :
    AllFilled around.inLoop statements := by
  induction reads with
  | last fits =>
      have simple := Form.hasBlock_of_fits fits
      exact .simple _ _ simple (Form.filled_of_simple simple) .nil
  | semicolon fits passes _ rest =>
      have simple := Form.hasBlock_of_fits fits
      exact .simple _ _ simple (Form.filled_of_simple simple) (rest (passes.toSteps.solid solid))
  | simple _ line => exact line solid
  | branch test passes body _ bodyFilled orelseFilled =>
      have inside := passes.toSteps.solid solid
      exact .branch _ _ test (body.block_ne_nil inside) (bodyFilled inside)
        (orelseFilled (body.solid inside)) .nil
  | whileLoop test passes body bodyFilled =>
      have inside := passes.toSteps.solid solid
      exact .whileLoop _ _ test (body.block_ne_nil inside) (bodyFilled inside) .nil
  | forLoop target iterable passes body bodyFilled =>
      have inside := passes.toSteps.solid solid
      exact .forLoop _ _ target iterable (body.block_ne_nil inside) (bodyFilled inside) .nil
  | define => exact .simple _ _ rfl trivial .nil
  | ended => exact .nil
  | more first _ firstFilled restFilled =>
      exact (firstFilled solid).append (restFilled (first.solid solid))
  | inline passes _ line => exact line (passes.toSteps.solid solid)
  | indented passes _ _ _ _ lines => exact lines (passes.toSteps.solid solid).next.next
  | omitted => exact .nil
  | elif _ line => exact line solid
  | otherwise passes _ block => exact block (passes.toSteps.solid solid)

theorem functions_filled (reads : Reads part around start statements finish) (solid : start.Solid)
    (none : start.functions = []) :
    ∀ definition ∈ finish.functions, definition.body ≠ [] ∧ AllFilled false definition.body := by
  refine reads.functions_all Cursor.Solid (fun _ => .next) ?_ solid (by simp [none])
  intro start middle finish parameters body name passes _ reads begun ended
  have inside := passes.toSteps.solid begun
  refine ⟨ended, stripDocumentation_ne_nil (reads.block_ne_nil inside), ?_⟩
  refine (reads.allFilled inside).stripDocumentation fun _ statement filled => ?_
  obtain ⟨line, sameLine, form⟩ := statement
  exact filled

end Reads

/-- A source with a block that is indented by a line without a token and closed right behind it. -/
def HollowBlock (source : String) : Prop :=
  ∃ before after front opening closing back, source.toList = before ++ after ∧
    LineFront before after front ∧ HollowLine after ∧
    tokenize source = .ok (front ++ opening :: closing :: back) ∧
    opening.kind = .indent ∧ closing.kind = .dedent

theorem not_hollowBlock {source : String} (plain : '\\' ∉ source.toList) : ¬HollowBlock source := by
  rintro ⟨before, after, _, _, _, _, split, -, hollow, -⟩
  obtain ⟨blanks, returns, rest, -, -, -, rfl⟩ := hollow
  exact plain (by simp [split])

/-- An indent does not stand right before the end of the input: nothing is open there. -/
theorem not_endOfInput_behind_indent {source : String} {front back : List Token}
    {opening following : Token}
    (accepted : tokenize source = .ok (front ++ opening :: following :: back))
    (indent : opening.kind = .indent) : following.kind ≠ .endOfInput := by
  intro ended
  obtain ⟨others, last, split, -, closes⟩ :=
    (completes_of_scan accepted).nesting Mode.initial_fits
  obtain rfl : back = [] := by
    rcases List.eq_nil_or_concat back with none | ⟨back, final, rfl⟩
    · exact none
    · rw [List.concat_eq_append, ← List.cons_append, ← List.cons_append, ← List.append_assoc] at split
      obtain ⟨rfl, -⟩ := List.append_inj' split rfl
      exact absurd ended (not_endOfInput_of_nestingAfter? closes following (by simp))
  have split : (front ++ [opening]) ++ [following] = others ++ [last] := by
    rw [← split, List.append_assoc]
    rfl
  obtain ⟨rfl, -⟩ := List.append_inj' split rfl
  obtain ⟨before, -, opened⟩ := nestingAfter?_front closes
  rw [nestingAfter?_cons, indent] at opened
  obtain ⟨nesting, opened, same⟩ := Option.bind_eq_some_iff.mp opened
  rw [TokenKind.nestingAfter?] at opened
  split at opened
  · cases opened
    cases same
  · cases opened

theorem Cursor.solid_of_tokenize {source : String} {tokens : List Token}
    (accepted : tokenize source = .ok tokens) (solid : ¬HollowBlock source) :
    (⟨tokens, 1, []⟩ : Cursor).Solid := by
  rintro opening following ⟨front, back, rfl⟩ indent
  simp only [List.append_assoc, List.cons_append, List.nil_append] at accepted
  refine ⟨fun dedent => ?_, not_endOfInput_behind_indent accepted indent⟩
  obtain ⟨before, after, split, point, hollow⟩ :=
    tokenize_hollow accepted indent (by rw [dedent]; rfl)
  exact solid ⟨before, after, front, opening, following, back, split, point, hollow, accepted, indent,
    dedent⟩

/-- Every block of an accepted program has a statement in it, if the source has no hollow block. -/
theorem Program.parse?_filled {source : String} {program : Program}
    (accepted : Program.parse? source = some (.ok program)) (solid : ¬HollowBlock source) :
    program.Filled := by
  obtain ⟨tokens, finish, tokenized, reads, same⟩ := Program.parse?_reads accepted
  have solid := Cursor.solid_of_tokenize tokenized solid
  exact ⟨reads.allFilled solid, same ▸ reads.functions_filled solid rfl⟩

def nestedBlocks : Program where
  functions :=
    [⟨0, "f", [⟨"a", none⟩],
      [.mk 2 false (.whileLoop (.name "a")
        [.mk 3 false (.branch (.name "a") [.mk 3 true .breakLoop] [])])], 1, 3, ["a"]⟩]
  body := [.mk 1 false (.define 0)]

set_option maxRecDepth 1000 in
theorem parse?_filled_nestedBlocks :
    Program.parse? "def f(a):\n  while a:\n    if a: break\n" = some (.ok nestedBlocks) ∧
      ¬HollowBlock "def f(a):\n  while a:\n    if a: break\n" ∧ nestedBlocks.Filled := by
  have solid : ¬HollowBlock "def f(a):\n  while a:\n    if a: break\n" :=
    not_hollowBlock (by decide)
  refine ⟨?accepted, solid, Program.parse?_filled ?accepted solid⟩
  cbv

/-- The hollow block of a condition. -/
example : Program.parse? "if x:\n  \\\n\ny\n" =
    some (.ok ⟨[], [.mk 1 false (.branch (.name "x") [] []), .mk 4 false (.expr (.name "y"))]⟩) := by
  cbv

end Stepwise.Script
