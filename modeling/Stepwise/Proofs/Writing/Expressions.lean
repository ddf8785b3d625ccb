import Stepwise.Proofs.Writing.Trailers

/-!
Every expression that can be written is read back from its tokens.
-/

namespace Stepwise.Script

/-- The tokens that the loop of its level lets stand behind an expression. -/
def Expr.ends : Expr → TokenKind → Bool
  | .attribute .. => attributeEnds
  | expr => expr.rung.operand.stops

def Expr.IsReadBack (expr : Expr) : Prop :=
  expr.rung.ResumesBefore expr.ends expr.bare expr

namespace Expr.IsReadBack

variable {expr : Expr}

theorem reads (back : expr.IsReadBack) : expr.rung.Reads expr.bare expr := by
  apply Level.ResumesBefore.reads back
  intro kind stops
  unfold Expr.ends
  split
  · have uncalled := TokenKind.isSymbol_of_test .leftParen stops rfl
    have atAtom : Level.atom.stops kind = true := Level.stops_mono stops (Nat.zero_le _)
    rw [attributeEnds, atAtom, uncalled]
    rfl
  · exact Level.operand_stops stops

theorem parenthesized (back : expr.IsReadBack) :
    Level.atom.Reads (.symbol .leftParen :: (expr.bare ++ [.symbol .rightParen])) expr :=
  Level.Resumes.reads
    (Level.resumes_parentheses (back.reads.mono (Level.height_le_conditional _)))

/-- An expression is read at every level, in parentheses if the level is tighter than its own. -/
theorem placed (back : expr.IsReadBack) (level : Level) :
    level.Reads (Script.placed level expr.rung expr.bare) expr := by
  unfold Script.placed
  split
  · rename_i le
    exact back.reads.mono le
  · exact back.parenthesized.mono (Nat.zero_le _)

/-- Where its own level is not asked for, an expression is read as an operand of the level. -/
theorem operand (back : expr.IsReadBack) {level : Level} (apart : expr.rung ≠ level) :
    level.tighter.Reads (Script.placed level expr.rung expr.bare) expr := by
  unfold Script.placed
  split
  · rename_i le
    have below : expr.rung.height < level.height := by
      have other : expr.rung.height ≠ level.height := fun same => apart (Level.height_injective same)
      omega
    have inner : level ≠ .atom := by
      rintro rfl
      simp [Level.height] at below
    have lower := Level.height_tighter inner
    exact back.reads.mono (by omega)
  · exact back.parenthesized.mono (Nat.zero_le _)

theorem enters (back : expr.IsReadBack) {level : Level} (same : expr.rung = level) :
    level.ResumesBefore expr.ends (Script.placed level expr.rung expr.bare) expr := by
  subst same
  have whole : Script.placed expr.rung expr.rung expr.bare = expr.bare := if_pos (Nat.le_refl _)
  rw [whole]
  exact back

/-- An expression is a left operand of a level that repeats, unless it is an attribute. -/
theorem left (back : expr.IsReadBack) {level : Level} (repeats : level.repeats = true)
    (plain : expr.rung = level → expr.ends = level.operand.stops) :
    level.Resumes (Script.placed level expr.rung expr.bare) expr := by
  by_cases same : expr.rung = level
  · have resumes := back.enters same
    rw [plain same] at resumes
    exact resumes
  · exact (back.operand same).resumes repeats

theorem leftOf (back : expr.IsReadBack) {level : Level} (repeats : level.repeats = true)
    (inner : level ≠ .trailer) :
    level.Resumes (Script.placed level expr.rung expr.bare) expr := by
  apply back.left repeats
  rintro rfl
  cases expr <;> first | rfl | exact absurd rfl inner

/-- An expression is what a trailer other than a call stands behind. -/
theorem object (back : expr.IsReadBack) :
    Level.trailer.ResumesBefore attributeEnds (Script.placed .trailer expr.rung expr.bare) expr := by
  by_cases same : expr.rung = .trailer
  · apply (back.enters same).mono
    intro kind ends
    unfold Expr.ends
    split
    · exact ends
    · rw [same]
      exact (Bool.and_eq_true_iff.mp ends).1
  · apply Level.ResumesBefore.mono ((back.operand same).resumes rfl)
    intro kind ends
    exact (Bool.and_eq_true_iff.mp ends).1

theorem called (back : expr.IsReadBack) :
    Level.trailer.Resumes (Script.placed expr.calledLevel expr.rung expr.bare) expr := by
  unfold Expr.calledLevel
  split
  · exact back.parenthesized.resumes rfl
  · rename_i plain
    apply back.left rfl
    intro same
    unfold Expr.ends
    split
    · exact (plain _ _ rfl).elim
    · rw [same]

end Expr.IsReadBack

mutual

/-- The expression that a target is written as. -/
def Target.expr : Target → Expr
  | .name name => .name name
  | .index object index => .index object index
  | .unpack items => .tuple (targetExprs items)

def targetExprs : List Target → List Expr
  | [] => []
  | item :: rest => item.expr :: targetExprs rest

end

mutual

theorem Target.toTarget_expr (target : Target) : target.expr.toTarget = .ok target := by
  cases target with
  | name name => rfl
  | index object index => rfl
  | unpack items =>
      simp only [Target.expr, Expr.toTarget, toTargets_targetExprs items]
      rfl

theorem toTargets_targetExprs (items : List Target) : toTargets (targetExprs items) = .ok items := by
  cases items with
  | nil => rfl
  | cons item rest =>
      simp only [targetExprs, toTargets, item.toTarget_expr, toTargets_targetExprs rest]
      rfl

end

mutual

theorem Expr.isReadBack (expr : Expr) (writable : expr.isWritable = true) : expr.IsReadBack := by
  match expr, writable with
  | .none, _ => exact Level.resumes_literal rfl
  | .bool value, _ => cases value <;> exact Level.resumes_literal rfl
  | .int value, _ => exact Level.resumes_literal rfl
  | .float value, writable => cases writable
  | .str content, _ => exact Level.resumes_str content
  | .name name, _ => exact Level.resumes_literal rfl
  | .list items, writable => exact Level.resumes_list (readsItems items writable)
  | .tuple items, writable => exact Level.resumes_tuple (readsItems items writable)
  | .dict entries, writable => exact Level.resumes_dict (readsEntries entries writable)
  | .comprehension element clauses, writable =>
      simp only [Expr.isWritable, Bool.and_eq_true, Bool.not_eq_true'] at writable
      obtain ⟨⟨first, filled⟩, rest⟩ := writable
      exact Level.resumes_comprehension (by simpa using filled)
        ((element.isReadBack first).placed _) (readsClauses clauses rest)
  | .unary op operand, writable =>
      exact Level.resumes_unary op ((operand.isReadBack writable).placed _)
  | .binary op left right, writable =>
      simp only [Expr.isWritable, Bool.and_eq_true] at writable
      have readLeft := left.isReadBack writable.1
      have readRight := (right.isReadBack writable.2).placed op.rightLevel
      by_cases groups : op = .power
      · subst groups
        exact Level.resumes_power (readLeft.placed .trailer) readRight
      · obtain ⟨repeats, inner⟩ := Level.repeats_leftLevel groups
        have resumes := Level.Resumes.binary groups (readLeft.leftOf repeats inner) readRight
        cases op <;> exact resumes
  | .compare left links, writable =>
      simp only [Expr.isWritable, Bool.and_eq_true, Bool.not_eq_true'] at writable
      obtain ⟨⟨first, filled⟩, rest⟩ := writable
      exact Level.resumes_compare (by simpa using filled) ((left.isReadBack first).placed _)
        (readsLinks links rest)
  | .logic op left right, writable =>
      simp only [Expr.isWritable, Bool.and_eq_true] at writable
      have readLeft := left.isReadBack writable.1
      have readRight := (right.isReadBack writable.2).placed op.level.tighter
      cases op <;>
        exact Level.Resumes.logic _ (readLeft.leftOf rfl (by decide)) readRight
  | .conditional test body orelse, writable =>
      simp only [Expr.isWritable, Bool.and_eq_true] at writable
      obtain ⟨⟨first, second⟩, third⟩ := writable
      exact Level.resumes_conditional ((body.isReadBack second).placed _)
        ((test.isReadBack first).placed _) ((orelse.isReadBack third).placed _)
  | .call function arguments, writable =>
      simp only [Expr.isWritable, Bool.and_eq_true] at writable
      obtain ⟨⟨first, order⟩, rest⟩ := writable
      exact Level.resumes_call (function.isReadBack first).called
        (readsArguments arguments order rest)
  | .method object name arguments, writable =>
      simp only [Expr.isWritable, Bool.and_eq_true] at writable
      obtain ⟨⟨⟨first, -⟩, order⟩, rest⟩ := writable
      exact Level.resumes_method (object.isReadBack first).object name
        (readsArguments arguments order rest)
  | .attribute object name, writable =>
      simp only [Expr.isWritable, Bool.and_eq_true] at writable
      exact Level.resumes_attribute (object.isReadBack writable.1).object name
  | .index object index, writable =>
      simp only [Expr.isWritable, Bool.and_eq_true] at writable
      exact Level.resumes_index (object.isReadBack writable.1).object
        ((index.isReadBack writable.2).placed _)
  | .slice object lower upper step, writable =>
      simp only [Expr.isWritable, Bool.and_eq_true] at writable
      obtain ⟨⟨⟨first, second⟩, third⟩, fourth⟩ := writable
      exact Level.resumes_slice (object.isReadBack first).object (readsBound lower second)
        (readsBound upper third) (readsStep step fourth)

theorem readsItems (items : List Expr) (writable : itemsWritable items = true) :
    ReadsItems (itemTokens items) items := by
  cases items with
  | nil => exact .nil
  | cons item rest =>
      simp only [itemsWritable, Bool.and_eq_true] at writable
      exact .cons ((item.isReadBack writable.1).placed _) (readsItems rest writable.2)

theorem readsEntries (entries : List (Expr × Expr)) (writable : entriesWritable entries = true) :
    ReadsEntries (entryTokens entries) entries := by
  cases entries with
  | nil => exact .nil
  | cons entry rest =>
      obtain ⟨key, value⟩ := entry
      simp only [entriesWritable, Bool.and_eq_true] at writable
      exact .cons ((key.isReadBack writable.1.1).placed _) ((value.isReadBack writable.1.2).placed _)
        (readsEntries rest writable.2)

theorem readsLinks (links : List (Comparison × Expr)) (writable : linksWritable links = true) :
    ReadsLinks (linkTokens links) links := by
  cases links with
  | nil => exact .nil
  | cons link rest =>
      obtain ⟨op, operand⟩ := link
      simp only [linksWritable, Bool.and_eq_true] at writable
      exact .cons ((operand.isReadBack writable.1).placed _) (readsLinks rest writable.2)

theorem readsConditions (conditions : List Expr) (writable : itemsWritable conditions = true) :
    ReadsConditions (conditionTokens conditions) conditions := by
  cases conditions with
  | nil => exact .nil
  | cons condition rest =>
      simp only [itemsWritable, Bool.and_eq_true] at writable
      exact .cons ((condition.isReadBack writable.1).placed _) (readsConditions rest writable.2)

theorem readsClauses (clauses : List Clause) (writable : clausesWritable clauses = true) :
    ReadsClauses (clauseTokens clauses) clauses := by
  cases clauses with
  | nil => exact .nil
  | cons clause rest =>
      obtain ⟨target, iterable, conditions⟩ := clause
      simp only [clausesWritable, Bool.and_eq_true] at writable
      obtain ⟨⟨⟨first, second⟩, third⟩, fourth⟩ := writable
      exact .cons ((readsTarget target first).mono (by decide)) target.toTarget_expr
        ((iterable.isReadBack second).placed _) (readsConditions conditions third)
        (readsClauses rest fourth)

theorem readsArguments {named : Bool} (arguments : List Argument)
    (order : (if named then arguments.all Argument.isKeyword else namedLast arguments) = true)
    (writable : argumentsWritable arguments = true) :
    ReadsArguments named (argumentTokens arguments) arguments := by
  cases arguments with
  | nil => exact .nil
  | cons argument rest =>
      cases argument with
      | positional value =>
          simp only [argumentsWritable, Bool.and_eq_true] at writable
          cases named with
          | true => cases order
          | false =>
              exact .positional ((value.isReadBack writable.1).placed _)
                (readsArguments rest order writable.2)
      | keyword name value =>
          simp only [argumentsWritable, Bool.and_eq_true] at writable
          have order : rest.all Argument.isKeyword = true := by
            cases named <;> simpa [namedLast, Argument.isKeyword] using order
          exact .keyword ((value.isReadBack writable.1.2).placed _)
            (readsArguments rest order writable.2)

theorem readsBound (bound : Option Expr) (writable : boundWritable bound = true) :
    ReadsBound (boundTokens bound) bound := by
  cases bound with
  | none => exact .absent
  | some value => exact .present ((value.isReadBack writable).placed _)

theorem readsStep (step : Option Expr) (writable : boundWritable step = true) :
    ReadsStep (stepTokens step) step := by
  cases step with
  | none => exact .absent
  | some value => exact .present ((value.isReadBack writable).placed _)

theorem readsTarget (target : Target) (writable : target.isWritable = true) :
    Level.trailer.Reads target.bare target.expr := by
  cases target with
  | name name => exact (Level.Resumes.reads (Level.resumes_literal rfl)).mono (by decide)
  | index object index =>
      simp only [Target.isWritable, Bool.and_eq_true] at writable
      exact Level.Resumes.reads (Level.resumes_index (object.isReadBack writable.1).object
        ((index.isReadBack writable.2).placed _))
  | unpack items =>
      have resumes := Level.resumes_tuple (readsTargets items writable)
      have sole : soleComma (targetExprs items) = soleComma items := by
        cases items with
        | nil => rfl
        | cons item rest => cases rest <;> rfl
      rw [sole] at resumes
      exact (Level.Resumes.reads resumes).mono (by decide)

theorem readsTargets (items : List Target) (writable : targetsWritable items = true) :
    ReadsItems (targetTokens items) (targetExprs items) := by
  cases items with
  | nil => exact .nil
  | cons item rest =>
      simp only [targetsWritable, Bool.and_eq_true] at writable
      have others := ReadsItems.cons ((readsTarget item writable.1).mono (by decide))
        (readsTargets rest writable.2)
      have same : separator (targetExprs rest) = separator rest := by cases rest <;> rfl
      rw [same] at others
      exact others

end

end Stepwise.Script
