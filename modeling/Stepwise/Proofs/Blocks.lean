import Stepwise.Proofs.Positions

/-!
Conditions on all statements of a body.

`Everywhere` holds of a block if a condition holds of its statements and of those in the blocks inside
it.  What the grammar says of single statements is such a condition, and so is that the names that a
body assigns are among its locals.
-/

namespace Stepwise.Script

/-- A condition holds of the statements of a block and of the blocks inside it.  It may depend on
whether a loop of the same body is around the statement. -/
inductive Everywhere (good : Bool → Statement → Prop) : Bool → List Statement → Prop where
  | nil {inLoop : Bool} : Everywhere good inLoop []
  | simple {inLoop : Bool} {form : Form} {rest : List Statement} (line : Nat) (sameLine : Bool) :
      form.hasBlock = false → good inLoop (.mk line sameLine form) →
      Everywhere good inLoop rest → Everywhere good inLoop (.mk line sameLine form :: rest)
  | branch {inLoop : Bool} {body orelse rest : List Statement} (line : Nat) (sameLine : Bool)
      (test : Expr) : good inLoop (.mk line sameLine (.branch test body orelse)) →
      Everywhere good inLoop body → Everywhere good inLoop orelse → Everywhere good inLoop rest →
      Everywhere good inLoop (.mk line sameLine (.branch test body orelse) :: rest)
  | whileLoop {inLoop : Bool} {body rest : List Statement} (line : Nat) (sameLine : Bool)
      (test : Expr) : good inLoop (.mk line sameLine (.whileLoop test body)) →
      Everywhere good true body → Everywhere good inLoop rest →
      Everywhere good inLoop (.mk line sameLine (.whileLoop test body) :: rest)
  | forLoop {inLoop : Bool} {body rest : List Statement} (line : Nat) (sameLine : Bool)
      (target : Target) (iterable : Expr) :
      good inLoop (.mk line sameLine (.forLoop target iterable body)) →
      Everywhere good true body → Everywhere good inLoop rest →
      Everywhere good inLoop (.mk line sameLine (.forLoop target iterable body) :: rest)

namespace Everywhere

variable {good other : Bool → Statement → Prop} {inLoop : Bool} {block first rest : List Statement}
  {statement : Statement}

theorem mono (everywhere : Everywhere good inLoop block)
    (implies : ∀ inLoop statement, good inLoop statement → other inLoop statement) :
    Everywhere other inLoop block := by
  induction everywhere with
  | nil => exact .nil
  | simple line sameLine simple holds _ rest => exact .simple line sameLine simple (implies _ _ holds) rest
  | branch line sameLine test holds _ _ _ body orelse rest =>
      exact .branch line sameLine test (implies _ _ holds) body orelse rest
  | whileLoop line sameLine test holds _ _ body rest =>
      exact .whileLoop line sameLine test (implies _ _ holds) body rest
  | forLoop line sameLine target iterable holds _ _ body rest =>
      exact .forLoop line sameLine target iterable (implies _ _ holds) body rest

theorem head (everywhere : Everywhere good inLoop (statement :: rest)) : good inLoop statement := by
  cases everywhere <;> assumption

theorem tail (everywhere : Everywhere good inLoop (statement :: rest)) :
    Everywhere good inLoop rest := by
  cases everywhere <;> assumption

theorem and (everywhere : Everywhere good inLoop block) (also : Everywhere other inLoop block) :
    Everywhere (fun inLoop statement => good inLoop statement ∧ other inLoop statement) inLoop
      block := by
  induction everywhere with
  | nil => exact .nil
  | simple line sameLine simple holds _ rest =>
      exact .simple line sameLine simple ⟨holds, also.head⟩ (rest also.tail)
  | branch line sameLine test holds _ _ _ body orelse rest =>
      cases also with
      | simple _ _ simple => cases simple
      | branch _ _ _ holdsToo bodyToo orelseToo restToo =>
          exact .branch line sameLine test ⟨holds, holdsToo⟩ (body bodyToo) (orelse orelseToo)
            (rest restToo)
  | whileLoop line sameLine test holds _ _ body rest =>
      cases also with
      | simple _ _ simple => cases simple
      | whileLoop _ _ _ holdsToo bodyToo restToo =>
          exact .whileLoop line sameLine test ⟨holds, holdsToo⟩ (body bodyToo) (rest restToo)
  | forLoop line sameLine target iterable holds _ _ body rest =>
      cases also with
      | simple _ _ simple => cases simple
      | forLoop _ _ _ _ holdsToo bodyToo restToo =>
          exact .forLoop line sameLine target iterable ⟨holds, holdsToo⟩ (body bodyToo)
            (rest restToo)

theorem append (before : Everywhere good inLoop first) (after : Everywhere good inLoop rest) :
    Everywhere good inLoop (first ++ rest) := by
  induction before with
  | nil => exact after
  | simple line sameLine simple holds _ inductionHypothesis =>
      exact .simple line sameLine simple holds (inductionHypothesis after)
  | branch line sameLine test holds body orelse _ _ _ inductionHypothesis =>
      exact .branch line sameLine test holds body orelse (inductionHypothesis after)
  | whileLoop line sameLine test holds body _ _ inductionHypothesis =>
      exact .whileLoop line sameLine test holds body (inductionHypothesis after)
  | forLoop line sameLine target iterable holds body _ _ inductionHypothesis =>
      exact .forLoop line sameLine target iterable holds body (inductionHypothesis after)

theorem flatten {lines : List (List Statement)}
    (everywhere : ∀ line ∈ lines, Everywhere good inLoop line) :
    Everywhere good inLoop lines.flatten := by
  induction lines with
  | nil => exact .nil
  | cons line lines inductionHypothesis =>
      rw [List.flatten_cons]
      exact (everywhere line List.mem_cons_self).append
        (inductionHypothesis fun later member => everywhere later (List.mem_cons_of_mem _ member))

theorem onOwnLine (everywhere : Everywhere good inLoop (statement :: rest))
    (unmarked : ∀ inLoop statement, good inLoop statement → good inLoop statement.onOwnLine) :
    Everywhere good inLoop (statement.onOwnLine :: rest) := by
  cases everywhere with
  | simple line sameLine simple holds rest => exact .simple line false simple (unmarked _ _ holds) rest
  | branch line sameLine test holds body orelse rest =>
      exact .branch line false test (unmarked _ _ holds) body orelse rest
  | whileLoop line sameLine test holds body rest =>
      exact .whileLoop line false test (unmarked _ _ holds) body rest
  | forLoop line sameLine target iterable holds body rest =>
      exact .forLoop line false target iterable (unmarked _ _ holds) body rest

/-- What holds of a body that does not look at marks holds without the string that documents it. -/
theorem stripDocumentation (everywhere : Everywhere good inLoop block)
    (unmarked : ∀ inLoop statement, good inLoop statement → good inLoop statement.onOwnLine) :
    Everywhere good inLoop (Script.stripDocumentation block) := by
  unfold Script.stripDocumentation
  split
  · exact everywhere.tail.onOwnLine unmarked
  · exact everywhere

end Everywhere

/-- Whether a form can stand in a function or outside of one, inside a loop or not. -/
def Form.suits (inFunction inLoop : Bool) : Form → Bool
  | .augment (.unpack _) .. => false
  | .breakLoop => inLoop
  | .continueLoop => inLoop
  | .giveBack _ => inFunction
  | .define _ => !inFunction
  | _ => true

theorem Form.suits_of_fits {around : Surroundings} {form : Form} (fits : form.fits around = true) :
    form.suits around.inFunction around.inLoop = true := by
  unfold Form.fits at fits
  unfold Form.suits
  split <;> simp_all

/-- Statements that can be read stand only where they suit. -/
theorem Shape.suits {part : Part} {around : Surroundings} {block : List Statement}
    (shape : Shape part around block) :
    Everywhere (fun inLoop statement => statement.form.suits around.inFunction inLoop = true)
      around.inLoop block := by
  induction shape with
  | last line fits =>
      exact .simple line _ (Form.hasBlock_of_fits fits) (Form.suits_of_fits fits) .nil
  | semicolon line fits _ inductionHypothesis =>
      exact .simple line _ (Form.hasBlock_of_fits fits) (Form.suits_of_fits fits) inductionHypothesis
  | simple _ inductionHypothesis => exact inductionHypothesis
  | branch line test _ _ body orelse => exact .branch line false test rfl body orelse .nil
  | whileLoop line test _ body => exact .whileLoop line false test rfl body .nil
  | forLoop line target iterable _ body => exact .forLoop line false target iterable rfl body .nil
  | define line id outside =>
      refine .simple line false rfl ?_ .nil
      simp only [Statement.form, Form.suits, outside, Bool.not_false]
  | ended => exact .nil
  | more _ _ first rest => exact first.append rest
  | inline _ inductionHypothesis => exact inductionHypothesis
  | indented _ inductionHypothesis => exact inductionHypothesis
  | omitted => exact .nil
  | elif _ inductionHypothesis => exact inductionHypothesis
  | otherwise _ inductionHypothesis => exact inductionHypothesis

/-- The statements of a function's body stand only where they suit. -/
theorem Definition.Shaped.suits {definition : Definition} (shaped : definition.Shaped) :
    Everywhere (fun inLoop statement => statement.form.suits true inLoop = true) false
      definition.body := by
  obtain ⟨body, shape, same⟩ := shaped
  rw [same]
  refine shape.suits.stripDocumentation fun inLoop statement suits => ?_
  obtain ⟨line, sameLine, form⟩ := statement
  exact suits

mutual

def Target.All (good : String → Prop) : Target → Prop
  | .name name => good name
  | .index .. => True
  | .unpack items => AllTargets good items

def AllTargets (good : String → Prop) : List Target → Prop
  | [] => True
  | target :: rest => target.All good ∧ AllTargets good rest

end

mutual

theorem Target.All.mono {good other : String → Prop} (implies : ∀ name, good name → other name)
    {target : Target} (all : target.All good) : target.All other := by
  cases target with
  | name name => exact implies name all
  | index object index => trivial
  | unpack items => exact AllTargets.mono implies all

theorem AllTargets.mono {good other : String → Prop} (implies : ∀ name, good name → other name)
    {targets : List Target} (all : AllTargets good targets) : AllTargets other targets := by
  cases targets with
  | nil => trivial
  | cons target rest => exact ⟨all.1.mono implies, all.2.mono implies⟩

end

/-- The targets of a form itself, not of the statements in its blocks. -/
def Form.targets : Form → List Target
  | .assign targets _ => targets
  | .augment target .. => [target]
  | .forLoop target .. => [target]
  | _ => []

theorem mem_addName (names : List String) (name : String) : name ∈ addName names name := by
  unfold addName
  split
  · rename_i found
    exact List.contains_iff_mem.mp found
  · exact List.mem_append_right _ (List.mem_singleton.mpr rfl)

theorem subset_addName (names : List String) (name : String) : names ⊆ addName names name := by
  unfold addName
  split
  · exact List.Subset.refl names
  · exact List.subset_append_left names [name]

mutual

theorem Target.subset_addNames (names : List String) (target : Target) :
    names ⊆ target.addNames names := by
  cases target with
  | name name => exact subset_addName names name
  | index object index => exact List.Subset.refl names
  | unpack items => exact subset_addTargetNames names items

theorem subset_addTargetNames (names : List String) (targets : List Target) :
    names ⊆ addTargetNames names targets := by
  cases targets with
  | nil => exact List.Subset.refl names
  | cons target rest =>
      exact List.Subset.trans (target.subset_addNames names) (subset_addTargetNames _ rest)

end

mutual

theorem Target.all_addNames (names : List String) (target : Target) :
    target.All (· ∈ target.addNames names) := by
  cases target with
  | name name => exact mem_addName names name
  | index object index => trivial
  | unpack items => exact all_addTargetNames names items

theorem all_addTargetNames (names : List String) (targets : List Target) :
    AllTargets (· ∈ addTargetNames names targets) targets := by
  cases targets with
  | nil => trivial
  | cons target rest =>
      have included := subset_addTargetNames (target.addNames names) rest
      exact ⟨(target.all_addNames names).mono fun _ member => included member,
        all_addTargetNames _ rest⟩

end

mutual

theorem Statement.subset_addNames (names : List String) (statement : Statement) :
    names ⊆ statement.addNames names := by
  obtain ⟨line, sameLine, form⟩ := statement
  exact form.subset_addNames names

theorem Form.subset_addNames (names : List String) (form : Form) : names ⊆ form.addNames names := by
  cases form with
  | assign targets value => exact subset_addTargetNames names targets
  | augment target op value => exact target.subset_addNames names
  | branch test body orelse =>
      exact List.Subset.trans (subset_addBlockNames names body) (subset_addBlockNames _ orelse)
  | whileLoop test body => exact subset_addBlockNames names body
  | forLoop target iterable body =>
      exact List.Subset.trans (target.subset_addNames names) (subset_addBlockNames _ body)
  | _ => exact List.Subset.refl names

theorem subset_addBlockNames (names : List String) (block : List Statement) :
    names ⊆ addBlockNames names block := by
  cases block with
  | nil => exact List.Subset.refl names
  | cons statement rest =>
      exact List.Subset.trans (statement.subset_addNames names) (subset_addBlockNames _ rest)

end

def Statement.Assigns (names : List String) (statement : Statement) : Prop :=
  AllTargets (· ∈ names) statement.form.targets

theorem Statement.Assigns.mono {names others : List String} (included : names ⊆ others)
    {statement : Statement} (assigns : statement.Assigns names) : statement.Assigns others :=
  AllTargets.mono (fun _ member => included member) assigns

theorem assigns_addBlockNames (inLoop : Bool) (names : List String) (block : List Statement) :
    Everywhere (fun _ statement => statement.Assigns (addBlockNames names block)) inLoop block := by
  have wider : ∀ {inLoop names others block}, names ⊆ others →
      Everywhere (fun _ statement => statement.Assigns names) inLoop block →
      Everywhere (fun _ statement => statement.Assigns others) inLoop block :=
    fun included everywhere => everywhere.mono fun _ _ assigns => assigns.mono included
  match block with
  | [] => exact .nil
  | .mk line sameLine form :: rest =>
      have following := assigns_addBlockNames inLoop (form.addNames names) rest
      have included := subset_addBlockNames (form.addNames names) rest
      cases form with
      | branch test body orelse =>
          have first := assigns_addBlockNames inLoop names body
          have second := assigns_addBlockNames inLoop (addBlockNames names body) orelse
          have between := subset_addBlockNames (addBlockNames names body) orelse
          exact .branch line sameLine test trivial (wider (List.Subset.trans between included) first)
            (wider included second) following
      | whileLoop test body =>
          have inner := assigns_addBlockNames true names body
          exact .whileLoop line sameLine test trivial (wider included inner) following
      | forLoop target iterable body =>
          have inner := assigns_addBlockNames true (target.addNames names) body
          have own := target.all_addNames names
          have between := subset_addBlockNames (target.addNames names) body
          refine .forLoop line sameLine target iterable ⟨?_, trivial⟩ (wider included inner) following
          exact own.mono fun _ member => included (between member)
      | assign targets value =>
          refine .simple line sameLine rfl ?_ following
          exact (all_addTargetNames names targets).mono fun _ member => included member
      | augment target op value =>
          refine .simple line sameLine rfl ⟨?_, trivial⟩ following
          exact (target.all_addNames names).mono fun _ member => included member
      | _ => exact .simple line sameLine rfl trivial following

end Stepwise.Script
