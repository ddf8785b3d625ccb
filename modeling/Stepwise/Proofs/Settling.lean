import Stepwise.Proofs.OpenLines
import Stepwise.Proofs.Positions

/-!
Where the frame of a function stands after a part of its body.

Under a hook that keeps all frames it is on the line of one of the statements of that part, and has
reported last the line that carries the statement.
-/

namespace Stepwise.Run

open Script Effect

/-- The machine when a statement starts: its frame has come to the line, and reported it if the
statement is reported. -/
def Machine.announced {σ : Type} (environment : Environment σ) (statement : Statement)
    (machine : Machine σ) : Machine σ :=
  if statement.isReported then machine.reachLine environment statement.line
  else { machine with frame := { machine.frame with line := statement.line } }

theorem executeStatement_apply {σ : Type} (environment : Environment σ) (below : Level σ)
    (fuel : Nat) {statement : Statement} (once : isLoop statement.form = false)
    (machine : Machine σ) :
    executeStatement environment below fuel statement machine =
      executeForm environment below fuel statement.line statement.form
        (machine.announced environment statement) := by
  obtain ⟨line, sameLine, form⟩ := statement
  have straight : isLoop form = false := once
  unfold executeStatement Machine.announced Statement.isReported
  simp only [Statement.form, Statement.sameLine, Statement.line, straight, Bool.not_false, if_true,
    Bool.false_or]
  cases sameLine with
  | true => rfl
  | false =>
      simp only [Bool.false_eq_true, if_false, Bool.not_false, if_true]
      rw [bind_apply, reportLine_apply]

theorem executeStatement_forLoop {σ : Type} (environment : Environment σ) (below : Level σ)
    (fuel line : Nat) (sameLine : Bool) (target : Target) (iterable : Expr) (body : List Statement) :
    executeStatement environment below fuel (.mk line sameLine (.forLoop target iterable body)) = (do
      reportLine environment line
      let iterable ← below.evaluate iterable
      let walk ← onHeap (Action.walk iterable)
      forLoop environment below line target body fuel walk) := rfl

/-- A frame is on the line of one of some statements, and has reported last what carries it. -/
def Settles (positions : List (Statement × Option Nat)) (outer : List (Option Nat))
    (machine : Machine (List Entry)) : Prop :=
  ∃ position ∈ positions, Stands outer position.1.line position.2 machine

theorem Settles.mono {positions others : List (Statement × Option Nat)}
    {outer : List (Option Nat)} {machine : Machine (List Entry)}
    (settles : Settles positions outer machine)
    (included : ∀ position ∈ positions, position ∈ others) : Settles others outer machine := by
  obtain ⟨position, member, stands⟩ := settles
  exact ⟨position, included position member, stands⟩

theorem Settles.here {statement : Statement} {positions : List (Statement × Option Nat)}
    {carrier : Option Nat} {outer : List (Option Nat)} {machine : Machine (List Entry)}
    (stands : Stands outer statement.line carrier machine) :
    Settles ((statement, carrier) :: positions) outer machine :=
  ⟨_, List.mem_cons_self, stands⟩

theorem Settles.stands {positions : List (Statement × Option Nat)} {outer : List (Option Nat)}
    {machine : Machine (List Entry)} (settles : Settles positions outer machine) :
    ∃ line last, Stands outer line last machine := by
  obtain ⟨position, _, stands⟩ := settles
  exact ⟨_, _, stands⟩

def BlocksSettle (environment : Environment (List Entry)) (fuel : Nat) : Prop :=
  ∀ block, Marked block → ∀ outer line before machine result after,
    Stands outer line before machine →
    (level environment fuel).execute block machine = some (result, after) →
    (block = [] ∧ after = machine) ∨ Settles (blockPositions before block) outer after

section

variable {environment : Environment (List Entry)}
  (hooked : environment.hook = some (.logging .keepAll)) {fuel : Nat}
  (settle : BlocksSettle environment fuel) {outer : List (Option Nat)} {line : Nat}
  {before : Option Nat} {machine after : Machine (List Entry)}

theorem onHeap_still {α : Type} {action : Action α} {result : Except RuntimeError α}
    (ended : onHeap action machine = some (result, after)) : Still machine after := by
  rw [onHeap_apply] at ended
  obtain ⟨_, -, ended⟩ := Option.map_eq_some_iff.mp ended
  cases ended
  exact ⟨rfl, rfl, rfl, rfl, rfl⟩

include hooked

theorem evaluate_still {expr : Expr} {result : Except RuntimeError Value}
    (ended : (level environment fuel).evaluate expr machine = some (result, after)) :
    Still machine after :=
  (keeping hooked).binding_of_expression
    (((keeping hooked).levels fuel).evaluate expr machine result after ended)

theorem holds_still {test : Expr} {result : Except RuntimeError Bool}
    (ended : holds (level environment fuel) test machine = some (result, after)) :
    Still machine after :=
  (keeping hooked).binding_of_expression
    (((keeping hooked).levels fuel).holds test machine result after ended)

theorem assign_still {target : Target} {value : Value} {result : Except RuntimeError Unit}
    (ended : assign (level environment fuel) target value machine = some (result, after)) :
    Still machine after :=
  ((keeping hooked).levels fuel).assign target value machine result after ended

theorem executeSimple_still {form : Form} (simple : form.hasBlock = false) {rounds line : Nat}
    {result : Except RuntimeError Flow}
    (ended : executeForm environment (level environment fuel) rounds line form machine =
      some (result, after)) : Still machine after :=
  ((keeping hooked).levels fuel).executeSimple rounds line form simple machine result after ended

theorem Stands.announced (stands : Stands outer line before machine) (statement : Statement) :
    Stands outer statement.line (statement.carrier before)
      (machine.announced environment statement) := by
  unfold Machine.announced Statement.carrier
  cases statement.isReported with
  | true => exact stands.reachLine hooked statement.line
  | false => exact ⟨stands.traced, rfl, stands.lines⟩

include settle

omit hooked in
/-- A block of a statement settles on one of its statements, or on the statement itself. -/
theorem body_settles {body : List Statement} (marked : Marked body) {statement : Statement}
    {carrier : Option Nat} (stands : Stands outer statement.line carrier machine)
    {result : Except RuntimeError Flow}
    (ended : (level environment fuel).execute body machine = some (result, after)) :
    Settles ((statement, carrier) :: blockPositions carrier body) outer after := by
  rcases settle body marked _ _ carrier machine result after stands ended with ⟨_, rfl⟩ | settles
  · exact .here stands
  · exact settles.mono fun _ member => List.mem_cons_of_mem _ member

theorem whileLoop_settles {body : List Statement} (marked : Marked body) (statement : Statement)
    (test : Expr) (rounds : Nat) {result : Except RuntimeError Flow}
    (stands : Stands outer line before machine)
    (ended : whileLoop environment (level environment fuel) statement.line test body rounds machine =
      some (result, after)) :
    Settles ((statement, some statement.line) :: blockPositions (some statement.line) body) outer
      after := by
  induction rounds generalizing line before machine with
  | zero => cases ended
  | succ rounds inductionHypothesis =>
      have reached := stands.reachLine hooked statement.line
      unfold whileLoop at ended
      rw [bind_apply, reportLine_apply] at ended
      rcases bind_ended ended with ⟨error, failed, -⟩ | ⟨truth, middle, tested, ended⟩
      · exact .here (reached.still (holds_still hooked failed))
      · have stood := reached.still (holds_still hooked tested)
        cases truth with
        | false =>
            cases ended
            exact .here stood
        | true =>
            simp only [if_true] at ended
            rcases bind_ended ended with ⟨error, failed, -⟩ | ⟨flow, inner, ran, ended⟩
            · exact body_settles settle marked stood failed
            · have settles := body_settles settle marked stood ran
              obtain ⟨_, _, standing⟩ := settles.stands
              cases flow with
              | normal => exact inductionHypothesis standing ended
              | continuing => exact inductionHypothesis standing ended
              | breaking => cases ended; exact settles
              | returning value => cases ended; exact settles

theorem forLoop_settles {body : List Statement} (marked : Marked body) (statement : Statement)
    (target : Target) (rounds : Nat) (walk : Walk) {result : Except RuntimeError Flow}
    (stands : Stands outer statement.line (some statement.line) machine)
    (ended : forLoop environment (level environment fuel) statement.line target body rounds walk
      machine = some (result, after)) :
    Settles ((statement, some statement.line) :: blockPositions (some statement.line) body) outer
      after := by
  induction rounds generalizing machine walk with
  | zero => cases ended
  | succ rounds inductionHypothesis =>
      unfold forLoop at ended
      rcases bind_ended ended with ⟨error, failed, -⟩ | ⟨fetched, middle, found, ended⟩
      · exact .here (stands.still (onHeap_still failed))
      · have stood := stands.still (onHeap_still found)
        cases fetched with
        | none =>
            cases ended
            exact .here stood
        | some fetched =>
            rcases bind_ended ended with ⟨error, failed, -⟩ | ⟨_, bound, assigned, ended⟩
            · exact .here (stood.still (assign_still hooked failed))
            · have stood := stood.still (assign_still hooked assigned)
              rcases bind_ended ended with ⟨error, failed, -⟩ | ⟨flow, inner, ran, ended⟩
              · exact body_settles settle marked stood failed
              · have settles := body_settles settle marked stood ran
                obtain ⟨_, _, standing⟩ := settles.stands
                have reached := standing.reachLine hooked statement.line
                cases flow with
                | breaking => cases ended; exact settles
                | returning value => cases ended; exact settles
                | normal =>
                    simp only [bind_apply, reportLine_apply] at ended
                    exact inductionHypothesis _ reached ended
                | continuing =>
                    simp only [bind_apply, reportLine_apply] at ended
                    exact inductionHypothesis _ reached ended

/-- A statement settles on itself or on a statement in its blocks, and what was reported last is right
for the statements that follow. -/
theorem executeStatement_settles (rounds : Nat) {statement : Statement} {rest : List Statement}
    (marked : Marked (statement :: rest)) {result : Except RuntimeError Flow}
    (stands : Stands outer line before machine)
    (ended : executeStatement environment (level environment fuel) rounds statement machine =
      some (result, after)) :
    ∃ position ∈ statement.positions before, Stands outer position.1.line position.2 after ∧
      blockPositions position.2 rest = blockPositions (statement.carrier before) rest := by
  -- what follows a statement with blocks starts with a report, wherever these have settled
  have blocks : ∀ {positions}, Fresh rest → statement.positions before = positions →
      Settles positions outer after →
      ∃ position ∈ statement.positions before, Stands outer position.1.line position.2 after ∧
        blockPositions position.2 rest = blockPositions (statement.carrier before) rest := by
    rintro positions fresh rfl ⟨position, member, stood⟩
    exact ⟨position, member, stood, fresh.blockPositions_eq _ _⟩
  have announced := stands.announced hooked statement
  cases marked with
  | @simple form _ line sameLine simple _ =>
      have once : isLoop (Statement.mk line sameLine form).form = false := by
        cases form with
        | whileLoop => cases simple
        | forLoop => cases simple
        | _ => rfl
      rw [executeStatement_apply _ _ _ once] at ended
      exact ⟨_, Statement.mem_positions _ _, announced.still (executeSimple_still hooked simple ended),
        rfl⟩
  | branch line sameLine test body orelse fresh _ =>
      rw [executeStatement_apply _ _ _ rfl] at ended
      refine blocks fresh (Statement.positions_eq _ _) ?_
      rcases bind_ended ended with ⟨error, failed, -⟩ | ⟨truth, middle, tested, ended⟩
      · exact .here (announced.still (holds_still hooked failed))
      · have stood := announced.still (holds_still hooked tested)
        cases truth with
        | true =>
            refine (body_settles settle body stood ended).mono ?_
            rw [Statement.form, Form.positions_branch]
            exact List.cons_subset_cons _ (List.subset_append_left _ _)
        | false =>
            refine (body_settles settle orelse stood ended).mono ?_
            rw [Statement.form, Form.positions_branch]
            exact List.cons_subset_cons _ (List.subset_append_right _ _)
  | whileLoop line sameLine test body fresh _ =>
      refine blocks fresh (Statement.positions_eq _ _) ?_
      exact whileLoop_settles hooked settle body (.mk line sameLine (.whileLoop test _)) test rounds
        stands ended
  | forLoop line sameLine target iterable body fresh _ =>
      refine blocks fresh (Statement.positions_eq _ _) ?_
      have reached := stands.reachLine hooked line
      rw [executeStatement_forLoop, bind_apply, reportLine_apply] at ended
      rcases bind_ended ended with ⟨error, failed, -⟩ | ⟨value, middle, evaluated, ended⟩
      · exact .here (reached.still (evaluate_still hooked failed))
      · have stood := reached.still (evaluate_still hooked evaluated)
        rcases bind_ended ended with ⟨error, failed, -⟩ | ⟨walk, inner, walked, ended⟩
        · exact .here (stood.still (onHeap_still failed))
        · exact forLoop_settles hooked settle body (.mk line sameLine (.forLoop target iterable _))
            target rounds walk (stood.still (onHeap_still walked)) ended

theorem executeBlock_settles (rounds : Nat) {block : List Statement} (marked : Marked block)
    {result : Except RuntimeError Flow} (stands : Stands outer line before machine)
    (ended : executeBlock environment (level environment fuel) rounds block machine =
      some (result, after)) :
    (block = [] ∧ after = machine) ∨ Settles (blockPositions before block) outer after := by
  induction block generalizing line before machine with
  | nil =>
      cases ended
      exact .inl ⟨rfl, rfl⟩
  | cons statement rest inductionHypothesis =>
      refine .inr ?_
      have own : ∀ {finish : Machine (List Entry)} {position : Statement × Option Nat},
          position ∈ statement.positions before → Stands outer position.1.line position.2 finish →
          Settles (blockPositions before (statement :: rest)) outer finish := by
        intro finish position member stood
        exact ⟨position, List.mem_append_left _ member, stood⟩
      rcases bind_ended ended with ⟨error, failed, -⟩ | ⟨flow, middle, ran, ended⟩
      · obtain ⟨position, member, stood, -⟩ :=
          executeStatement_settles hooked settle rounds marked stands failed
        exact own member stood
      · obtain ⟨position, member, stood, following⟩ :=
          executeStatement_settles hooked settle rounds marked stands ran
        cases flow with
        | breaking => cases ended; exact own member stood
        | continuing => cases ended; exact own member stood
        | returning value => cases ended; exact own member stood
        | normal =>
            rcases inductionHypothesis marked.tail stood ended with ⟨_, rfl⟩ | settles
            · exact own member stood
            · rw [following] at settles
              exact settles.mono fun _ member => List.mem_append_right _ member

end

theorem blocks_settle {environment : Environment (List Entry)}
    (hooked : environment.hook = some (.logging .keepAll)) (fuel : Nat) :
    BlocksSettle environment fuel := by
  induction fuel with
  | zero =>
      intro block marked outer line before machine result after stands ended
      cases ended
  | succ fuel inductionHypothesis =>
      intro block marked outer line before machine result after stands ended
      exact executeBlock_settles hooked inductionHypothesis fuel marked stands ended

end Stepwise.Run
