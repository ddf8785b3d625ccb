import Stepwise.Proofs.Literals.Evaluation
import Stepwise.Proofs.Writing.Statements

/-!
The texts of values, read back by compiling them.

A value is shown as the literal of its tree, and the literal of a tree gives a value of the tree, so
a source that assigns the text of a value binds a value of the same tree.
-/

namespace Stepwise

open Script Run

namespace Script

def Program.ofAssignment (name : String) (expr : Expr) : Program :=
  ⟨[], [.mk 1 false (.assign [.name name] expr)]⟩

/-- A source that assigns a text of tokens to a name is the assignment of what the tokens are. -/
theorem parse?_assignment (name : String) {text : String} {expr : Expr} (named : isName name = true)
    (writes : Writes text expr.bare) (writable : expr.isWritable = true) :
    Program.parse? (name ++ " = " ++ text ++ "\n") = some (.ok (.ofAssignment name expr)) := by
  have phrase := expr.phrase writable
  have reads := (expr.isReadBack writable).reads.mono (Level.height_le_conditional _)
  have readsName := (Expr.isReadBack (.name name) named).reads.mono (Level.height_le_conditional _)
  have source : name ++ " = " ++ text ++ "\n" =
      String.ofList (name.toList ++ (' ' :: '=' :: ' ' :: (text.toList ++ ['\n']))) := by
    rw [← String.toList_inj]
    simp
  have spells : Spells (' ' :: '=' :: ' ' :: (text.toList ++ ['\n']))
      (.symbol .assign :: expr.bare) ['\n'] := by
    have sign : Fronts Symbol.assign.spelling (.symbol .assign) (' ' :: (text.toList ++ ['\n'])) :=
      .symbol rfl
    exact .space (.lexeme (by simp [Symbol.spelling]) sign (.space (writes _ rfl)))
  have spelled : (TokenKind.name name).isSpelled = true := named
  obtain ⟨tokens, tokenized, same, first⟩ := tokenize_spells
    (TokenKind.feed_not_mem_spelling spelled) (TokenKind.fronts spelled rfl) spells (.inr rfl)
    (phrase.matched 0)
  have read : tokenize (name ++ " = " ++ text ++ "\n") = .ok tokens := source ▸ tokenized
  rw [Program.parse?, read]
  apply Program.ofTokens?_line same first rfl
  intro depth line start finish shown newline enough
  obtain ⟨here, assign, shown⟩ := shown
  simp only [List.length_cons] at enough
  obtain ⟨depth, rfl⟩ : ∃ inner, depth = inner + 2 := ⟨depth - 2, by omega⟩
  have readName := readsName (depth + 2) start start.next ⟨here, rfl⟩ (by rw [assign]; rfl)
    (by simp [Expr.bare, Level.height]; omega)
  have readValue := reads (depth + 2) start.next.next finish shown (by rw [newline]; rfl)
    (by simp [Level.height]; omega)
  exact assignment_answers line rfl readName assign readValue newline

end Script

namespace Run

variable {σ : Type} {environment : Environment σ} {below : Level σ} {fuel line : Nat} {name : String}
  {expr : Expr} {value : Value} {heap : Heap}

/-- An assignment to a name at top level binds the name to what the expression makes. -/
theorem executeStatement_assign {machine : Machine σ} (top : machine.frame.activation = none)
    (made : (below.evaluate expr).Makes
      { machine with frame := { machine.frame with line := line } } value heap) :
    executeStatement environment below fuel (.mk line false (.assign [.name name] expr)) machine =
      some (.ok .normal,
        { machine with
          heap := heap
          globals := machine.globals.set name value
          frame := { machine.frame with line := line } }) := by
  have untraced : machine.frame.isTraced = false := by rw [Frame.isTraced, top]
  have bound : assignEach below value [.name name]
      { machine with heap := heap, frame := { machine.frame with line := line } } =
        some (.ok (),
          { machine with
            heap := heap
            globals := machine.globals.set name value
            frame := { machine.frame with line := line } }) := by
    simp only [assignEach, assign, assignBy, Effect.store, Effect.bind_apply, Effect.frame, top]
    rfl
  unfold Effect.Makes at made
  simp only [executeStatement, isLoop, Bool.not_false, if_true, Bool.false_eq_true, if_false,
    executeForm, Effect.bind_apply, reportLine_apply,
    Machine.reachLine_of_untraced environment line untraced, made, bound]
  rfl

theorem executeBlock_single {statement : Statement} {machine after : Machine σ}
    (ran : executeStatement environment below fuel statement machine = some (.ok .normal, after)) :
    executeBlock environment below fuel [statement] machine = some (.ok .normal, after) := by
  rw [executeBlock, Effect.bind_apply, ran]
  rfl

/-- A program whose statements run to their end leaves behind what they have bound. -/
theorem ofProgram?_of_runs {id callLimit : Nat} {source : String} {program : Program} {flow : Flow}
    {machine : Machine Unit}
    (ran : (level (Namespace.environment id program callLimit none) fuel).execute program.body
      (Machine.start .empty .empty ()) = some (.ok flow, machine)) :
    Namespace.ofProgram? fuel id source callLimit program =
      some (.ok ⟨id, source, program, machine.globals, machine.heap⟩) := by
  simp only [Namespace.ofProgram?, ran]

theorem ofProgram?_ofAssignment {id callLimit : Nat} {source : String}
    (made : ((level (Namespace.environment id (.ofAssignment name expr) callLimit none)
      fuel).evaluate expr).Makes
        { Machine.start .empty .empty () with frame := { Frame.topLevel with line := 1 } }
          value heap) :
    Namespace.ofProgram? (fuel + 1) id source callLimit (.ofAssignment name expr) =
      some (.ok ⟨id, source, .ofAssignment name expr, Bindings.empty.set name value, heap⟩) := by
  have ran : (level (Namespace.environment id (.ofAssignment name expr) callLimit none)
      (fuel + 1)).execute (Program.ofAssignment name expr).body (Machine.start .empty .empty ()) =
        some (.ok .normal,
          ⟨heap, Bindings.empty.set name value, "", (), 0, { Frame.topLevel with line := 1 }⟩) :=
    executeBlock_single (executeStatement_assign rfl made)
  exact ofProgram?_of_runs ran

end Run

/-- Compiling an assignment of the text of a value gives a value of the same tree, if the value has
no floats and not the least integer in it, no string with a control character that is quoted by its
code, and not more containers inside each other than a text shows. -/
theorem compile?_render {heap : Heap} {value : Value} {datum : Datum} (id callLimit : Nat)
    (shown : datum.IsOf heap value) (readable : datum.isReadable = true)
    (nested : datum.nesting ≤ 512) :
    ∃ space again,
      Namespace.compile? id ("_ = " ++ value.render heap ++ "\n") callLimit = some (.ok space) ∧
        space.global? "_" = some again ∧ datum.IsOf space.heap again := by
  have enclosed : Enclosed heap [] datum.nesting := by simp [Enclosed]
  have parsed := parse?_assignment "_" (by decide)
    (datum.writes shown readable nested enclosed) (datum.isWritable_literal readable)
  obtain ⟨fuel, ample, room⟩ : ∃ fuel, ampleFuel = fuel + 1 ∧ datum.nesting + 2 ≤ fuel :=
    room_of_nesting _ (by rw [ampleFuel]; omega)
  obtain ⟨again, made, evaluated, -, same⟩ := datum.literal_makes
    (Namespace.environment id (.ofAssignment "_" datum.literal) callLimit none) shown readable room
    { Machine.start .empty .empty () with frame := { Frame.topLevel with line := 1 } }
  refine ⟨⟨id, "_ = " ++ value.render heap ++ "\n", .ofAssignment "_" datum.literal,
    Bindings.empty.set "_" again, made⟩, again, ?_, ?_, same⟩
  · have compiled : Namespace.compile? id ("_ = " ++ value.render heap ++ "\n") callLimit =
        Namespace.ofProgram? ampleFuel id ("_ = " ++ value.render heap ++ "\n") callLimit
          (.ofAssignment "_" datum.literal) := by
      rw [Namespace.compile?,
        show Program.parse? ("_ = " ++ value.render heap ++ "\n") = _ from parsed]
    rw [compiled, ample]
    exact ofProgram?_ofAssignment evaluated
  · exact (Bindings.get?_set .empty "_" "_" again).trans (if_pos rfl)

theorem compile?_render_nested :
    let heap : Heap := { Heap.empty with
      lists := #[#[.int (-2), .str "it's"]]
      dicts := #[⟨[(.int 1, .list 0), (.tuple [.bool true], .none)], by decide⟩] }
    let datum := Datum.dict
      [(.int 1, .list [.int (-2), .str "it's"]), (.tuple [.bool true], .none)]
    datum.IsOf heap (.dict 0) ∧ datum.isReadable = true ∧ datum.nesting ≤ 512 ∧
      ∃ space again,
        Namespace.compile? 0 ("_ = " ++ (Value.dict 0).render heap ++ "\n") 200 = some (.ok space) ∧
          space.global? "_" = some again ∧ datum.IsOf space.heap again := by
  intro heap datum
  have shown : datum.IsOf heap (.dict 0) :=
    ⟨0, _, rfl, rfl, .list 0, _, rfl,
      ⟨0, _, rfl, rfl, _, _, rfl, rfl, _, _, rfl, rfl, rfl⟩, .none, _, rfl, rfl, rfl⟩
  have readable : datum.isReadable = true := by decide
  have nested : datum.nesting ≤ 512 := by decide
  exact ⟨shown, readable, nested, compile?_render 0 200 shown readable nested⟩

end Stepwise
