import Mathlib
import Stepwise.Proofs.Parsing.Apart

/-!
What every accepted program keeps to.

The table of functions and the statements that bind them agree, statements stand only where they have a
meaning, the locals of a function are its parameters and what its body assigns, and functions extend
over lines of their own.
-/

namespace Stepwise.Script

/-- What every function of an accepted program keeps to. -/
structure Definition.WellFormed (definition : Definition) : Prop where
  /-- No functions are bound inside of one. -/
  defines : gatherAll Form.defined definition.body = []
  /-- Loops are left and continued only inside a loop of the body, and no sequence is augmented. -/
  suits : Everywhere (fun inLoop statement => statement.form.suits true inLoop = true) false
    definition.body
  parameters : Listed definition.parameters
  distinct : definition.locals.Nodup
  /-- What the body assigns comes behind the parameters, in the order in which it appears first. -/
  locals : definition.locals = definition.parameters.map Parameter.name ++
    ((gatherAll Form.assigned definition.body).removeAll
      (definition.parameters.map Parameter.name)).eraseDups
  lines : definition.firstLine ≤ definition.lastLine
  within : Everywhere (fun _ statement => definition.firstLine ≤ statement.line ∧
    statement.line ≤ definition.lastLine) false definition.body

structure Program.WellFormed (program : Program) : Prop where
  /-- Every function stands in the table under its own number. -/
  numbered : ∀ (index : Nat) (definition : Definition),
    program.functions[index]? = some definition → definition.id = index
  /-- The program's own statements bind every function once, and in the order of the table. -/
  defines : gatherAll Form.defined program.body = List.range program.functions.length
  /-- Statements stand where they have a meaning, and no value is given back outside of functions. -/
  suits : Everywhere (fun inLoop statement => statement.form.suits false inLoop = true) false
    program.body
  functions : ∀ definition ∈ program.functions, definition.WellFormed
  /-- Every function ends above the next one. -/
  apart : program.functions.Pairwise fun earlier later => earlier.lastLine < later.firstLine

/-- A function of a program is well formed if its statements suit a function and lie within its lines,
and its parameters and its lines are in order. -/
theorem Definition.Shaped.wellFormed {hasText : Nat → Prop} {definition : Definition}
    (shaped : definition.Shaped) (ranges : definition.Ranges hasText)
    (listed : Listed definition.parameters) (lines : definition.firstLine ≤ definition.lastLine) :
    definition.WellFormed where
  defines := defined_of_suits shaped.suits
  suits := shaped.suits
  parameters := listed
  distinct := by
    rw [ranges.locals, addBlockNames_eq]
    exact nodup_foldl_addName listed.distinct _
  locals := by rw [ranges.locals, addBlockNames_eq, foldl_addName]
  lines := lines
  within := ranges.body.mono fun _ _ ⟨first, last, _⟩ => ⟨first, last⟩

theorem Program.wellFormed_of_accepted {source : String} {program : Program}
    (accepted : Program.parse? source = some (.ok program)) :
    ∀ definition ∈ program.functions, definition.WellFormed := by
  obtain ⟨-, shaped⟩ := Program.parse?_shapes accepted
  have ranges := Program.parse?_ranges accepted
  obtain ⟨tokens, finish, -, reads, same⟩ := Program.parse?_reads accepted
  have listed : ∀ definition ∈ program.functions,
      Listed definition.parameters ∧ definition.firstLine ≤ definition.lastLine := by
    rw [same]
    refine reads.functions_all (fun _ => True) (fun _ _ => trivial) ?_ trivial nofun
    intro start _ finish _ _ _ _ listed _ _ _
    exact ⟨trivial, listed, Nat.le_max_right finish.lastLine start.line⟩
  intro definition member
  obtain ⟨distinct, lines⟩ := listed definition member
  exact (shaped definition member).wellFormed (ranges.functions definition member) distinct lines

/-- Every accepted program is well formed. -/
theorem Program.parse?_wellFormed {source : String} {program : Program}
    (accepted : Program.parse? source = some (.ok program)) : program.WellFormed := by
  obtain ⟨shape, -⟩ := Program.parse?_shapes accepted
  have ranges := Program.parse?_ranges accepted
  obtain ⟨tokens, finish, tokenized, reads, same⟩ := Program.parse?_reads accepted
  have ordered := Cursor.ordered_of_tokenize tokenized
  refine ⟨ranges.numbered, ?_, shape.suits, Program.wellFormed_of_accepted accepted, ?_⟩
  · obtain ⟨count, length, gathered⟩ := reads.defined
    rw [gathered, same, length, List.range_eq_range', List.length_nil, Nat.zero_add]
  · rw [same]
    exact (reads.apart ordered (scan_precedes tokenized) ⟨.nil, nofun⟩).functions

def twoFunctions : Program where
  functions :=
    [⟨0, "f", [⟨"x", none⟩, ⟨"y", some (.int 2)⟩],
        [.mk 2 false (.forLoop (.name "a") (.name "x") [.mk 2 true .breakLoop])], 1, 2,
        ["x", "y", "a"]⟩,
      ⟨1, "g", [], [.mk 3 true (.giveBack none)], 3, 3, []⟩]
  body := [.mk 1 false (.define 0), .mk 3 false (.define 1)]

theorem parse?_wellFormed_twoFunctions :
    Program.parse? "def f(x, y=2):\n  for a in x: break\ndef g(): return\n" =
      some (.ok twoFunctions) ∧ twoFunctions.WellFormed := by
  refine ⟨?accepted, Program.parse?_wellFormed ?accepted⟩
  cbv

end Stepwise.Script
