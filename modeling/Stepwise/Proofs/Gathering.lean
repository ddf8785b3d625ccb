import Stepwise.Proofs.Blocks

/-!
What the statements of a body contribute to it, in the order of the text.

`gatherAll` goes through the blocks inside a block as well.  The names that a body assigns are gathered
from its targets, and the functions that it binds from its definitions.
-/

namespace Stepwise.Script

mutual

def Statement.gather {α : Type} (own : Form → List α) : Statement → List α
  | .mk _ _ form => form.gather own

def Form.gather {α : Type} (own : Form → List α) : Form → List α
  | .branch test body orelse =>
      own (.branch test body orelse) ++ (gatherAll own body ++ gatherAll own orelse)
  | .whileLoop test body => own (.whileLoop test body) ++ gatherAll own body
  | .forLoop target iterable body => own (.forLoop target iterable body) ++ gatherAll own body
  | form => own form

def gatherAll {α : Type} (own : Form → List α) : List Statement → List α
  | [] => []
  | statement :: rest => statement.gather own ++ gatherAll own rest

end

section

variable {α : Type} (own : Form → List α)

theorem gather_of_simple {form : Form} (simple : form.hasBlock = false) :
    form.gather own = own form := by
  cases form <;> first | rfl | cases simple

theorem gatherAll_append (first rest : List Statement) :
    gatherAll own (first ++ rest) = gatherAll own first ++ gatherAll own rest := by
  induction first with
  | nil => rfl
  | cons statement first inductionHypothesis =>
      rw [List.cons_append, gatherAll, gatherAll, inductionHypothesis, List.append_assoc]

theorem gatherAll_singleton (statement : Statement) :
    gatherAll own [statement] = statement.gather own := by
  rw [gatherAll, gatherAll, List.append_nil]

theorem gatherAll_eq_nil {inLoop : Bool} {block : List Statement}
    (none : Everywhere (fun _ statement => own statement.form = []) inLoop block) :
    gatherAll own block = [] := by
  induction none with
  | nil => rfl
  | simple line sameLine simple none _ rest =>
      rw [gatherAll, Statement.gather, gather_of_simple own simple, rest, List.append_nil]
      exact none
  | branch line sameLine test none _ _ _ body orelse rest =>
      simp only [gatherAll, Statement.gather, Form.gather, body, orelse, rest, List.append_nil]
      exact none
  | whileLoop line sameLine test none _ _ body rest =>
      simp only [gatherAll, Statement.gather, Form.gather, body, rest, List.append_nil]
      exact none
  | forLoop line sameLine target iterable none _ _ body rest =>
      simp only [gatherAll, Statement.gather, Form.gather, body, rest, List.append_nil]
      exact none

end

def Form.defined : Form → List Nat
  | .define id => [id]
  | _ => []

theorem defined_of_suits {inLoop : Bool} {block : List Statement}
    (suits : Everywhere (fun inLoop statement => statement.form.suits true inLoop = true) inLoop
      block) : gatherAll Form.defined block = [] := by
  refine gatherAll_eq_nil Form.defined (suits.mono fun inLoop statement suited => ?_)
  obtain ⟨line, sameLine, form⟩ := statement
  cases form <;> first | rfl | cases suited

mutual

def Target.names : Target → List String
  | .name name => [name]
  | .index .. => []
  | .unpack items => targetNames items

def targetNames : List Target → List String
  | [] => []
  | target :: rest => target.names ++ targetNames rest

end

def Form.assigned (form : Form) : List String := targetNames form.targets

theorem targetNames_singleton (target : Target) : targetNames [target] = target.names := by
  rw [targetNames, targetNames, List.append_nil]

mutual

theorem Target.addNames_eq (names : List String) (target : Target) :
    target.addNames names = target.names.foldl addName names := by
  cases target with
  | name name => rfl
  | index object index => rfl
  | unpack items => exact addTargetNames_eq names items

theorem addTargetNames_eq (names : List String) (targets : List Target) :
    addTargetNames names targets = (targetNames targets).foldl addName names := by
  cases targets with
  | nil => rfl
  | cons target rest =>
      rw [addTargetNames, targetNames, List.foldl_append, target.addNames_eq names,
        addTargetNames_eq _ rest]

end

mutual

theorem Statement.addNames_eq (names : List String) (statement : Statement) :
    statement.addNames names = (statement.gather Form.assigned).foldl addName names := by
  obtain ⟨line, sameLine, form⟩ := statement
  exact form.addNames_eq names

theorem Form.addNames_eq (names : List String) (form : Form) :
    form.addNames names = (form.gather Form.assigned).foldl addName names := by
  cases form with
  | assign targets value => exact addTargetNames_eq names targets
  | augment target op value =>
      show target.addNames names = (targetNames [target]).foldl addName names
      rw [targetNames_singleton, target.addNames_eq]
  | branch test body orelse =>
      rw [Form.addNames, Form.gather, List.foldl_append, List.foldl_append,
        addBlockNames_eq names body, addBlockNames_eq _ orelse]
      rfl
  | whileLoop test body =>
      rw [Form.addNames, Form.gather, List.foldl_append, addBlockNames_eq names body]
      rfl
  | forLoop target iterable body =>
      rw [Form.addNames, Form.gather, List.foldl_append, target.addNames_eq, addBlockNames_eq _ body,
        Form.assigned, Form.targets, targetNames_singleton]
  | _ => rfl

/-- Collecting the names of a block adds those that are gathered from it, one after the other. -/
theorem addBlockNames_eq (names : List String) (block : List Statement) :
    addBlockNames names block = (gatherAll Form.assigned block).foldl addName names := by
  cases block with
  | nil => rfl
  | cons statement rest =>
      rw [addBlockNames, gatherAll, List.foldl_append, statement.addNames_eq names,
        addBlockNames_eq _ rest]

end

/-- Names that are added one after the other come behind the old ones where they first appear. -/
theorem foldl_addName (names added : List String) :
    added.foldl addName names = names ++ (added.removeAll names).eraseDups := by
  induction added generalizing names with
  | nil => exact (List.append_nil names).symm
  | cons name added inductionHypothesis =>
      rw [List.foldl_cons, inductionHypothesis, List.cons_removeAll]
      by_cases known : names.contains name = true
      · rw [addName, if_pos known, if_neg (by rw [known]; nofun)]
      · have behind : added.removeAll (names ++ [name]) =
            (added.removeAll names).filter fun other => !other == name := by
          simp only [List.removeAll, List.filter_filter]
          refine List.filter_congr fun other _ => ?_
          by_cases same : other = name <;> simp [same]
        rw [addName, if_neg known, if_pos (eq_false_of_ne_true known), List.eraseDups_cons, behind,
          List.append_assoc, List.singleton_append]

theorem nodup_addName {names : List String} (distinct : names.Nodup) (name : String) :
    (addName names name).Nodup := by
  unfold addName
  split
  · exact distinct
  · rename_i absent
    refine List.nodup_append.mpr ⟨distinct, List.pairwise_singleton _ name, ?_⟩
    intro earlier member other inside same
    rw [List.mem_singleton.mp inside] at same
    exact absent (List.contains_iff_mem.mpr (same ▸ member))

theorem nodup_foldl_addName {names : List String} (distinct : names.Nodup) (added : List String) :
    (added.foldl addName names).Nodup := by
  induction added generalizing names with
  | nil => exact distinct
  | cons name added inductionHypothesis => exact inductionHypothesis (nodup_addName distinct name)

end Stepwise.Script
