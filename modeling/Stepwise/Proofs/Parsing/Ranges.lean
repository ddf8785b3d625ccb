import Stepwise.Proofs.Parsing.Extent

/-!
The lines that functions extend over.

A function extends from its first token to the last one of its body, so all its statements lie between
its first line and its last.
-/

namespace Stepwise.Script

/-- The statements of a function lie between its first line and its last, and its locals are its
parameters and what it assigns. -/
structure Definition.Ranges (hasText : Nat → Prop) (definition : Definition) : Prop where
  body : Everywhere (fun _ statement => definition.firstLine ≤ statement.line ∧
    statement.line ≤ definition.lastLine ∧ hasText statement.line) false definition.body
  locals : definition.locals =
    addBlockNames (definition.parameters.map Parameter.name) definition.body

/-- The functions of a program are numbered in order and extend over lines of the source, and its own
statements bind no other ones. -/
structure Program.Ranges (hasText : Nat → Prop) (program : Program) : Prop where
  functions : ∀ definition ∈ program.functions, definition.Ranges hasText
  numbered : ∀ (index : Nat) (definition : Definition),
    program.functions[index]? = some definition → definition.id = index
  defines : Everywhere (fun _ statement =>
    ∀ id, statement.form = .define id → id < program.functions.length) false program.body

namespace Reads

variable {hasText : Nat → Prop} {part : Part} {around : Surroundings} {start middle finish : Cursor}
  {statements body : List Statement}

theorem function_ranges (reads : Reads .block ⟨true, false⟩ middle body finish)
    (passes : start.Passes middle) (ordered : start.Ordered hasText) (name : String)
    (parameters : List Parameter) :
    (finish.function start.line name parameters body).Ranges hasText := by
  have inside := passes.toSteps.advances ordered
  refine ⟨Everywhere.stripDocumentation ?_ fun _ ⟨_, _, _⟩ => id, rfl⟩
  refine Everywhere.mono (reads.spans inside.ordered) fun _ statement lies => ?_
  exact ⟨Nat.le_trans inside.line lies.first, Nat.le_trans lies.last (Nat.le_max_left _ _),
    lies.written⟩

theorem numbered (reads : Reads part around start statements finish)
    (begun : ∀ (index : Nat) (definition : Definition),
      start.functions[index]? = some definition → definition.id = index) :
    ∀ (index : Nat) (definition : Definition),
      finish.functions[index]? = some definition → definition.id = index := by
  refine reads.preserves (fun cursor => ∀ (index : Nat) (definition : Definition),
    cursor.functions[index]? = some definition → definition.id = index) ?_ ?_ begun
  · intro cursor numbered
    rw [cursor.next_functions]
    exact numbered
  · intro _ _ finish parameters body name _ _ _ _ _ numbered index definition found
    rw [Cursor.define, List.getElem?_append] at found
    by_cases earlier : index < finish.functions.length
    · rw [if_pos earlier] at found
      exact numbered index definition found
    · rw [if_neg earlier] at found
      obtain ⟨here, rfl⟩ := List.getElem?_eq_some_iff.mp found
      rw [List.length_singleton] at here
      simp only [List.getElem_singleton, Cursor.function]
      omega

theorem functions_ranges (reads : Reads part around start statements finish)
    (ordered : start.Ordered hasText)
    (begun : ∀ definition ∈ start.functions, definition.Ranges hasText) :
    ∀ definition ∈ finish.functions, definition.Ranges hasText := by
  apply reads.functions_all (fun cursor => cursor.Ordered hasText) _ _ ordered begun
  · exact fun _ ordered => ordered.next.ordered
  · intro _ _ _ parameters body name passes _ reads before after
    exact ⟨(after.define _).ordered, reads.function_ranges passes before name parameters⟩

end Reads

theorem Cursor.ordered_of_tokenize {source : String} {tokens : List Token}
    (tokenized : tokenize source = .ok tokens) :
    Cursor.Ordered (Inhabits 1 source.toList) ⟨tokens, 1, []⟩ := by
  have stands := tokenize_stands tokenized
  exact ⟨stands.ordered, stands.least, stands.inhabits⟩

/-- Every line that a statement of an accepted program stands on is a line of the source, within the
lines of the function that the statement belongs to. -/
theorem Program.parse?_ranges {source : String} {program : Program}
    (accepted : Program.parse? source = some (.ok program)) :
    program.Ranges (Inhabits 1 source.toList) := by
  obtain ⟨tokens, finish, tokenized, reads, same⟩ := Program.parse?_reads accepted
  have ordered := Cursor.ordered_of_tokenize tokenized
  refine ⟨?_, ?_, ?_⟩ <;> rw [same]
  · exact reads.functions_ranges ordered nofun
  · exact reads.numbered nofun
  · exact Everywhere.mono (reads.spans ordered) fun _ _ lies => lies.define

end Stepwise.Script
