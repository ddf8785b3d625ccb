import Mathlib.Data.List.Nodup
import Stepwise.Proofs.Bracketing
import Stepwise.Proofs.Settling

/-!
The lines that loops report.

A loop whose body is a row of simple statements, each on a line of its own, takes some number of turns.
It reports its header, and then for every turn the lines of the body and the header again.
-/

namespace Stepwise.Script

def Form.isStraight : Form → Bool
  | .breakLoop | .continueLoop | .giveBack _ | .branch .. | .whileLoop .. | .forLoop .. => false
  | .expr _ | .assign .. | .augment .. | .pass | .raise _ | .assert .. | .define _ => true

def Form.loopBody? : Form → Option (List Statement)
  | .whileLoop _ body => some body
  | .forLoop _ _ body => some body
  | _ => none

/-- A simple statement on a line of its own, which never leaves the block that it stands in other than
by an error. -/
def Statement.isPlain (statement : Statement) : Bool :=
  !statement.sameLine && statement.form.isStraight

theorem Statement.isStraight_of_isPlain {statement : Statement} (plain : statement.isPlain = true) :
    statement.form.isStraight = true :=
  (Bool.and_eq_true_iff.mp plain).2

end Stepwise.Script

namespace Stepwise.Run

open Script Effect

section

variable {σ : Type} (environment : Environment σ) (below : Level σ) (line : Nat)

/-- A `while` loop finds its test true a number of times and then false, and its body ends normally
each time. -/
inductive WhileTurns (test : Expr) (body : List Statement) :
    (count : Nat) → (start finish : Machine σ) → Prop where
  | done {start finish : Machine σ} :
      holds below test (start.reachLine environment line) = some (.ok false, finish) →
      WhileTurns test body 0 start finish
  | turn {count : Nat} {start inner next finish : Machine σ} :
      holds below test (start.reachLine environment line) = some (.ok true, inner) →
      below.execute body inner = some (.ok .normal, next) →
      WhileTurns test body count next finish →
      WhileTurns test body (count + 1) start finish

/-- A walk yields a number of items to a `for` loop that has reported its header, and the body ends
normally for each of them. -/
inductive ForTurns (target : Target) (body : List Statement) :
    (count : Nat) → Walk → (start finish : Machine σ) → Prop where
  | done {walk : Walk} {start finish : Machine σ} :
      onHeap (Action.next walk) start = some (.ok none, finish) →
      ForTurns target body 0 walk start finish
  | turn {count : Nat} {walk later : Walk} {item : Value} {start fetched bound next finish : Machine σ} :
      onHeap (Action.next walk) start = some (.ok (some (item, later)), fetched) →
      assign below target item fetched = some (.ok (), bound) →
      below.execute body bound = some (.ok .normal, next) →
      ForTurns target body count later (next.reachLine environment line) finish →
      ForTurns target body (count + 1) walk start finish

def Turns : Form → (count : Nat) → (start finish : Machine σ) → Prop
  | .whileLoop test body => WhileTurns environment below line test body
  | .forLoop target iterable body => fun count start finish =>
      ∃ value evaluated walk ready,
        below.evaluate iterable (start.reachLine environment line) = some (.ok value, evaluated) ∧
        onHeap (Action.walk value) evaluated = some (.ok walk, ready) ∧
        ForTurns environment below line target body count walk ready finish
  | _ => fun _ _ _ => False

variable {environment below line}

theorem executeForm_straight {form : Form} (straight : form.isStraight = true) {rounds : Nat}
    {flow : Flow} {machine after : Machine σ}
    (ended : executeForm environment below rounds line form machine = some (.ok flow, after)) :
    flow = .normal := by
  cases form with
  | expr expr =>
      obtain ⟨_, _, -, ended⟩ := bind_ok_iff.mp ended
      cases ended
      rfl
  | assign targets expr =>
      obtain ⟨_, _, -, ended⟩ := bind_ok_iff.mp ended
      obtain ⟨_, _, -, ended⟩ := bind_ok_iff.mp ended
      cases ended
      rfl
  | augment target op expr =>
      obtain ⟨_, _, -, ended⟩ := bind_ok_iff.mp ended
      cases ended
      rfl
  | pass =>
      cases ended
      rfl
  | raise expr =>
      obtain ⟨_, _, -, ended⟩ := bind_ok_iff.mp ended
      cases ended
  | assert test message =>
      obtain ⟨truth, _, -, ended⟩ := bind_ok_iff.mp ended
      cases truth with
      | true =>
          cases ended
          rfl
      | false =>
          obtain ⟨_, _, -, ended⟩ := bind_ok_iff.mp ended
          cases ended
  | define id =>
      obtain ⟨_, _, -, ended⟩ := bind_ok_iff.mp ended
      cases ended
      rfl
  | breakLoop => cases straight
  | continueLoop => cases straight
  | giveBack expr => cases straight
  | branch test body orelse => cases straight
  | whileLoop test body => cases straight
  | forLoop target iterable body => cases straight

theorem isLoop_of_isStraight {form : Form} (straight : form.isStraight = true) :
    isLoop form = false := by
  cases form with
  | whileLoop test body => cases straight
  | forLoop target iterable body => cases straight
  | _ => rfl

theorem hasBlock_of_isStraight {form : Form} (straight : form.isStraight = true) :
    form.hasBlock = false := by
  cases form with
  | branch test body orelse => cases straight
  | whileLoop test body => cases straight
  | forLoop target iterable body => cases straight
  | _ => rfl

theorem executeStatement_plain {statement : Statement} (plain : statement.isPlain = true)
    (rounds : Nat) (machine : Machine σ) :
    executeStatement environment below rounds statement machine =
      executeForm environment below rounds statement.line statement.form
        (machine.reachLine environment statement.line) := by
  have once := isLoop_of_isStraight (Statement.isStraight_of_isPlain plain)
  have reported : statement.isReported = true := by
    rw [Statement.isReported, (Bool.and_eq_true_iff.mp plain).1, Bool.or_true]
  rw [executeStatement_apply environment below rounds once, Machine.announced, if_pos reported]

theorem executeStatement_normal {statement : Statement} (plain : statement.isPlain = true)
    {rounds : Nat} {flow : Flow} {machine after : Machine σ}
    (ended : executeStatement environment below rounds statement machine =
      some (.ok flow, after)) : flow = .normal := by
  rw [executeStatement_plain plain] at ended
  exact executeForm_straight (Statement.isStraight_of_isPlain plain) ended

theorem executeBlock_normal {block : List Statement}
    (plain : ∀ statement ∈ block, statement.isPlain = true) {rounds : Nat} {flow : Flow}
    {machine after : Machine σ}
    (ended : executeBlock environment below rounds block machine = some (.ok flow, after)) :
    flow = .normal := by
  induction block generalizing machine with
  | nil =>
      cases ended
      rfl
  | cons statement rest inductionHypothesis =>
      obtain ⟨first, middle, ran, ended⟩ := bind_ok_iff.mp ended
      obtain rfl := executeStatement_normal (plain statement List.mem_cons_self) ran
      exact inductionHypothesis (fun other member => plain other (List.mem_cons_of_mem _ member)) ended

end

section

variable {σ : Type} {environment : Environment σ} {line fuel : Nat} {body : List Statement}
  (plain : ∀ statement ∈ body, statement.isPlain = true)

include plain

theorem execute_normal {flow : Flow} {machine after : Machine σ}
    (ended : (level environment fuel).execute body machine = some (.ok flow, after)) :
    flow = .normal := by
  cases fuel with
  | zero => cases ended
  | succ fuel => exact executeBlock_normal plain ended

/-- A `while` loop with a plain body ends well exactly after some number of turns. -/
theorem whileLoop_eq_ok_iff (test : Expr) (rounds : Nat) {flow : Flow} {machine after : Machine σ} :
    whileLoop environment (level environment fuel) line test body rounds machine =
        some (.ok flow, after) ↔
      flow = .normal ∧ ∃ count < rounds,
        WhileTurns environment (level environment fuel) line test body count machine after := by
  induction rounds generalizing machine with
  | zero =>
      refine ⟨nofun, ?_⟩
      rintro ⟨-, count, fewer, -⟩
      exact absurd fewer (Nat.not_lt_zero _)
  | succ rounds inductionHypothesis =>
      unfold whileLoop
      rw [bind_apply, reportLine_apply]
      refine ⟨fun ended => ?_, ?_⟩
      · obtain ⟨truth, inner, tested, ended⟩ := bind_ok_iff.mp ended
        cases truth with
        | false =>
            cases ended
            exact ⟨rfl, 0, Nat.succ_pos _, .done tested⟩
        | true =>
            obtain ⟨_, next, ran, ended⟩ := bind_ok_iff.mp ended
            obtain rfl := execute_normal plain ran
            obtain ⟨normal, count, fewer, turns⟩ := inductionHypothesis.mp ended
            exact ⟨normal, count + 1, Nat.succ_lt_succ fewer, .turn tested ran turns⟩
      · rintro ⟨normal, count, fewer, turns⟩
        apply bind_ok_iff.mpr
        cases turns with
        | done tested =>
            obtain rfl := normal
            exact ⟨false, _, tested, rfl⟩
        | turn tested ran turns =>
            refine ⟨true, _, tested, bind_ok_iff.mpr ⟨.normal, _, ran, ?_⟩⟩
            apply inductionHypothesis.mpr
            exact ⟨normal, _, Nat.lt_of_succ_lt_succ fewer, turns⟩

/-- A `for` loop with a plain body ends well exactly after some number of turns. -/
theorem forLoop_eq_ok_iff (target : Target) (rounds : Nat) (walk : Walk) {flow : Flow}
    {machine after : Machine σ} :
    forLoop environment (level environment fuel) line target body rounds walk machine =
        some (.ok flow, after) ↔
      flow = .normal ∧ ∃ count < rounds,
        ForTurns environment (level environment fuel) line target body count walk machine after := by
  induction rounds generalizing machine walk with
  | zero =>
      refine ⟨nofun, ?_⟩
      rintro ⟨-, count, fewer, -⟩
      exact absurd fewer (Nat.not_lt_zero _)
  | succ rounds inductionHypothesis =>
      unfold forLoop
      refine ⟨fun ended => ?_, ?_⟩
      · obtain ⟨fetch, fetched, found, ended⟩ := bind_ok_iff.mp ended
        cases fetch with
        | none =>
            cases ended
            exact ⟨rfl, 0, Nat.succ_pos _, .done found⟩
        | some fetch =>
            obtain ⟨_, bound, assigned, ended⟩ := bind_ok_iff.mp ended
            obtain ⟨_, next, ran, ended⟩ := bind_ok_iff.mp ended
            obtain rfl := execute_normal plain ran
            simp only [bind_apply, reportLine_apply] at ended
            obtain ⟨normal, count, fewer, turns⟩ := (inductionHypothesis _).mp ended
            exact ⟨normal, count + 1, Nat.succ_lt_succ fewer, .turn found assigned ran turns⟩
      · rintro ⟨normal, count, fewer, turns⟩
        apply bind_ok_iff.mpr
        cases turns with
        | done found =>
            obtain rfl := normal
            exact ⟨none, _, found, rfl⟩
        | turn found assigned ran turns =>
            refine ⟨some (_, _), _, found, bind_ok_iff.mpr ⟨(), _, assigned, ?_⟩⟩
            refine bind_ok_iff.mpr ⟨.normal, _, ran, ?_⟩
            simp only [bind_apply, reportLine_apply]
            apply (inductionHypothesis _).mpr
            exact ⟨normal, _, Nat.lt_of_succ_lt_succ fewer, turns⟩

/-- A loop with a plain body ends well exactly after some number of turns. -/
theorem loop_eq_ok_iff {form : Form} (loops : form.loopBody? = some body) (sameLine : Bool)
    (rounds : Nat) {flow : Flow} {machine after : Machine σ} :
    executeStatement environment (level environment fuel) rounds (.mk line sameLine form) machine =
        some (.ok flow, after) ↔
      flow = .normal ∧ ∃ count < rounds,
        Turns environment (level environment fuel) line form count machine after := by
  cases form with
  | whileLoop test inner =>
      obtain rfl := Option.some.inj loops
      exact whileLoop_eq_ok_iff plain test rounds
  | forLoop target iterable inner =>
      obtain rfl := Option.some.inj loops
      rw [executeStatement_forLoop, bind_apply, reportLine_apply]
      refine ⟨fun ended => ?_, ?_⟩
      · obtain ⟨value, evaluated, given, ended⟩ := bind_ok_iff.mp ended
        obtain ⟨walk, ready, walked, ended⟩ := bind_ok_iff.mp ended
        obtain ⟨normal, count, fewer, turns⟩ := (forLoop_eq_ok_iff plain target rounds walk).mp ended
        exact ⟨normal, count, fewer, value, evaluated, walk, ready, given, walked, turns⟩
      · rintro ⟨normal, count, fewer, value, evaluated, walk, ready, given, walked, turns⟩
        refine bind_ok_iff.mpr ⟨value, evaluated, given, bind_ok_iff.mpr ⟨walk, ready, walked, ?_⟩⟩
        exact (forLoop_eq_ok_iff plain target rounds walk).mpr ⟨normal, count, fewer, turns⟩
  | _ => cases loops

end

/-- What a loop reports in some turns: the lines of its body and then its header, for each of them. -/
def turnLines (line : Nat) (body : List Statement) (count : Nat) : List Nat :=
  (List.replicate count (body.map Statement.line ++ [line])).flatten

theorem turnLines_succ (line : Nat) (body : List Statement) (count : Nat) :
    turnLines line body (count + 1) = body.map Statement.line ++ [line] ++ turnLines line body count := by
  rw [turnLines, List.replicate_succ, List.flatten_cons]
  rfl

theorem count_turnLines (line : Nat) (body : List Statement) (count place : Nat) :
    (turnLines line body count).count place =
      count * (body.map Statement.line ++ [line]).count place := by
  rw [turnLines, List.count_flatten, List.map_replicate, List.sum_replicate_nat]

/-- A log in which no function is called and the hook keeps the frame at every event. -/
def Quiet (log : List Entry) : Prop := ∀ entry ∈ log, entry.event ≠ .call ∧ entry.answer = .keep

structure IsLineLog (definition : Option Definition) (lines : List Nat) (log : List Entry) :
    Prop where
  events : ∀ entry ∈ log, entry.event = .line ∧ some entry.view.definition = definition
  lines : log.map (fun entry => entry.view.line) = lines

/-- What happens to a frame that reports some lines.  If the frame is traced and the run of it that
is looked at stays quiet, these lines are all that is logged, and the frame stays traced. -/
structure Reports (lines : List Nat) (start finish : Machine (List Entry)) : Prop where
  definition : finish.frame.definition? = start.frame.definition?
  log : ∃ log, finish.observer = start.observer ++ log ∧
    (start.frame.isTraced = true → Quiet log →
      finish.frame.isTraced = true ∧ IsLineLog start.frame.definition? lines log)

theorem IsLineLog.append {definition : Option Definition} {lines others : List Nat}
    {log later : List Entry} (first : IsLineLog definition lines log)
    (second : IsLineLog definition others later) :
    IsLineLog definition (lines ++ others) (log ++ later) := by
  refine ⟨fun entry member => ?_, ?_⟩
  · rcases List.mem_append.mp member with member | member
    · exact first.events entry member
    · exact second.events entry member
  · rw [List.map_append, first.lines, second.lines]

theorem Reports.refl (machine : Machine (List Entry)) : Reports [] machine machine :=
  ⟨rfl, [], (List.append_nil _).symm, fun traced _ => ⟨traced, nofun, rfl⟩⟩

theorem Reports.trans {lines others : List Nat} {start middle finish : Machine (List Entry)}
    (before : Reports lines start middle) (after : Reports others middle finish) :
    Reports (lines ++ others) start finish := by
  obtain ⟨named, log, observer, logged⟩ := before
  obtain ⟨laterNamed, later, laterObserver, laterLogged⟩ := after
  refine ⟨laterNamed.trans named, log ++ later, ?_, fun traced quiet => ?_⟩
  · rw [laterObserver, observer, List.append_assoc]
  · have quietBefore : Quiet log := fun entry member => quiet entry (List.mem_append_left _ member)
    have quietAfter : Quiet later := fun entry member => quiet entry (List.mem_append_right _ member)
    obtain ⟨stillTraced, reported⟩ := logged traced quietBefore
    obtain ⟨tracedLast, reportedLast⟩ := laterLogged stillTraced quietAfter
    rw [named] at reportedLast
    exact ⟨tracedLast, reported.append reportedLast⟩

theorem FrameLog.opens {room : Nat} {definition : Definition} {failed : Bool} {log : List Entry}
    (framed : FrameLog room definition failed log) : ∃ entry ∈ log, entry.event = .call := by
  cases room with
  | zero => cases framed
  | succ room =>
      obtain ⟨event, -, -, -, -⟩ := framed
      exact ⟨_, List.mem_cons_self, event⟩

theorem Calls.eq_nil_of_quiet {room : Nat} {failed : Bool} {log : List Entry}
    (calls : Calls (AnyFrameLog room) failed log) (quiet : Quiet log) : log = [] := by
  cases calls with
  | none => rfl
  | last _ framed =>
      obtain ⟨_, framed⟩ := framed
      obtain ⟨entry, member, event⟩ := framed.opens
      exact absurd event (quiet entry member).1
  | next framed _ =>
      obtain ⟨_, framed⟩ := framed
      obtain ⟨entry, member, event⟩ := framed.opens
      exact absurd event (quiet entry (List.mem_append_left _ member)).1

theorem Frame.Resembles.refl (frame : Frame) : frame.Resembles frame := ⟨rfl, rfl, rfl, rfl⟩

theorem Frame.Resembles.trans {first second third : Frame} (before : first.Resembles second)
    (after : second.Resembles third) : first.Resembles third :=
  ⟨after.definition.trans before.definition, after.traced.trans before.traced,
    after.line.trans before.line, after.scopes.trans before.scopes⟩

section

variable {environment : Environment (List Entry)} {strategy : Strategy}
  (hooked : environment.hook = some (.logging strategy))

include hooked

/-- Runs under a logging hook, with what code that only binds names does to its frame. -/
def frugality : Discipline environment :=
  { bracketing hooked with
    binding := (framesAccount environment.callLimit).course Frame.Resembles Frame.Resembles.refl
      Frame.Resembles.trans
    binding_of_expression := fun kept => ⟨kept.frame ▸ .refl _, kept.depth, kept.observer⟩
    statement_of_binding := by
      rintro failed start finish ⟨resembles, depth, log, observer, calls⟩
      refine ⟨depth, resembles.definition, log, observer, ?_⟩
      rw [resembles.traced]
      exact .rest calls
    store := fun _ _ resembles => ⟨resembles, rfl, (framesAccount _).stay _ _ _⟩ }

theorem Reports.silent {start finish : Machine (List Entry)}
    (kept : (frugality hooked).binding.Leads false start finish) : Reports [] start finish := by
  obtain ⟨resembles, -, log, observer, calls⟩ := kept
  refine ⟨resembles.definition, log, observer, fun traced quiet => ?_⟩
  obtain rfl := calls.eq_nil_of_quiet quiet
  exact ⟨resembles.traced.trans traced, nofun, rfl⟩

theorem Reports.of_expression {start finish : Machine (List Entry)}
    (kept : (frugality hooked).account.expression.Leads false start finish) :
    Reports [] start finish :=
  .silent hooked ((frugality hooked).binding_of_expression kept)

theorem Reports.of_onHeap {α : Type} {action : Action α} (grows : action.Grows) {value : α}
    {start finish : Machine (List Entry)}
    (ended : onHeap action start = some (.ok value, finish)) : Reports [] start finish :=
  .of_expression hooked ((frugality hooked).account.expression.congruence.onHeap grows _ _ _ ended)

theorem Reports.reachLine (line : Nat) (machine : Machine (List Entry)) :
    Reports [line] machine (machine.reachLine environment line) := by
  cases wanted : machine.frame.isTraced with
  | false =>
      rw [machine.reachLine_of_untraced environment line wanted]
      refine ⟨rfl, [], (List.append_nil _).symm, fun traced => ?_⟩
      rw [wanted] at traced
      cases traced
  | true =>
      obtain ⟨activation, running, traced⟩ := Frame.activation_of_isTraced wanted
      rw [reachLine_logging hooked machine running traced line]
      refine ⟨Frame.definition?_setTraced _ _, _, rfl, fun _ quiet => ?_⟩
      have named : some activation.definition = machine.frame.definition? := by
        rw [Frame.definition?, running, Option.map_some]
      refine ⟨?_, fun entry member => ?_, rfl⟩
      · rw [Frame.isTraced_setTraced, running, (quiet _ List.mem_cons_self).2]
        rfl
      · obtain rfl := List.mem_singleton.mp member
        exact ⟨rfl, named⟩

theorem executeStatement_reports {fuel rounds : Nat} {statement : Statement}
    (plain : statement.isPlain = true) {flow : Flow} {machine after : Machine (List Entry)}
    (ended : executeStatement environment (level environment fuel) rounds statement machine =
      some (.ok flow, after)) :
    Reports [statement.line] machine after := by
  rw [executeStatement_plain plain] at ended
  have simple := hasBlock_of_isStraight (Statement.isStraight_of_isPlain plain)
  have kept := ((frugality hooked).levels fuel).executeSimple rounds _ _ simple _ _ _ ended
  exact (Reports.reachLine hooked _ machine).trans (.silent hooked kept)

theorem executeBlock_reports {fuel rounds : Nat} {block : List Statement}
    (plain : ∀ statement ∈ block, statement.isPlain = true) {flow : Flow}
    {machine after : Machine (List Entry)}
    (ended : executeBlock environment (level environment fuel) rounds block machine =
      some (.ok flow, after)) :
    Reports (block.map Statement.line) machine after := by
  induction block generalizing machine with
  | nil =>
      cases ended
      exact .refl _
  | cons statement rest inductionHypothesis =>
      obtain ⟨first, middle, ran, ended⟩ := bind_ok_iff.mp ended
      have reported := executeStatement_reports hooked (plain statement List.mem_cons_self) ran
      have others : ∀ other ∈ rest, other.isPlain = true :=
        fun other member => plain other (List.mem_cons_of_mem _ member)
      obtain rfl := executeStatement_normal (plain statement List.mem_cons_self) ran
      exact reported.trans (inductionHypothesis others ended)

theorem execute_reports {fuel : Nat} {body : List Statement}
    (plain : ∀ statement ∈ body, statement.isPlain = true) {flow : Flow}
    {machine after : Machine (List Entry)}
    (ended : (level environment fuel).execute body machine = some (.ok flow, after)) :
    Reports (body.map Statement.line) machine after := by
  cases fuel with
  | zero => cases ended
  | succ fuel => exact executeBlock_reports hooked plain ended

variable {fuel line count : Nat} {body : List Statement}
  (plain : ∀ statement ∈ body, statement.isPlain = true)
  {machine after : Machine (List Entry)}

include plain

theorem WhileTurns.reports {test : Expr}
    (turns : WhileTurns environment (level environment fuel) line test body count machine after) :
    Reports (line :: turnLines line body count) machine after := by
  have tested : ∀ {truth : Bool} {start finish : Machine (List Entry)},
      holds (level environment fuel) test (start.reachLine environment line) =
        some (.ok truth, finish) → Reports [line] start finish := by
    intro truth start finish ended
    have kept := ((frugality hooked).levels fuel).holds test _ _ _ ended
    exact (Reports.reachLine hooked line start).trans (.of_expression hooked kept)
  induction turns with
  | done ended => exact tested ended
  | turn ended ran _ inductionHypothesis =>
      rw [turnLines_succ, List.append_assoc]
      have inner := (execute_reports hooked plain ran).trans inductionHypothesis
      exact (tested ended).trans inner

theorem ForTurns.reports {target : Target} {walk : Walk}
    (turns : ForTurns environment (level environment fuel) line target body count walk machine
      after) :
    Reports (turnLines line body count) machine after := by
  induction turns with
  | done found => exact .of_onHeap hooked (.next _) found
  | turn found assigned ran _ inductionHypothesis =>
      have bound := Reports.silent hooked
        (((frugality hooked).levels fuel).assign _ _ _ _ _ assigned)
      have ready := (Reports.of_onHeap hooked (.next _) found).trans bound
      have once := ready.trans (execute_reports hooked plain ran)
      rw [turnLines_succ]
      exact (once.trans (.reachLine hooked line _)).trans inductionHypothesis

/-- A loop reports its header once before its first turn and once after every turn. -/
theorem Turns.reports {form : Form} (loops : form.loopBody? = some body)
    (turns : Turns environment (level environment fuel) line form count machine after) :
    Reports (line :: turnLines line body count) machine after := by
  cases form with
  | whileLoop test inner =>
      obtain rfl := Option.some.inj loops
      exact WhileTurns.reports hooked plain turns
  | forLoop target iterable inner =>
      obtain rfl := Option.some.inj loops
      obtain ⟨value, evaluated, walk, ready, given, walked, turns⟩ := turns
      have kept := ((frugality hooked).levels fuel).evaluate iterable _ _ _ given
      have settled := (Reports.reachLine hooked line machine).trans (.of_expression hooked kept)
      have started := settled.trans (.of_onHeap hooked (.walk value) walked)
      exact started.trans (ForTurns.reports hooked plain turns)
  | _ => cases loops

/-- The lines that loops report, under a hook that answers in whatever way.

A loop whose body is a row of simple statements, each on a line of its own and none of them a `break`,
`continue` or `return`, ends without an error exactly if it takes some number of turns: a `while` loop
finds its test true that often and then false, a `for` loop is given that many items.  In a traced
frame, if no function is called and the hook keeps the frame, the events of the loop are those of
its header, and then for every turn those of the lines of the body in order and of the header again.
So each line of the body is reported once for every turn, and the header once more. -/
theorem loop_reports {form : Form} (loops : form.loopBody? = some body) (sameLine : Bool)
    (rounds : Nat) :
    (∀ flow,
      executeStatement environment (level environment fuel) rounds (.mk line sameLine form) machine =
          some (.ok flow, after) ↔
        flow = .normal ∧ ∃ count < rounds,
          Turns environment (level environment fuel) line form count machine after) ∧
    (∀ count, Turns environment (level environment fuel) line form count machine after →
      ∃ log, after.observer = machine.observer ++ log ∧
        (machine.frame.isTraced = true → Quiet log →
          after.frame.isTraced = true ∧ after.frame.definition? = machine.frame.definition? ∧
          (∀ entry ∈ log, entry.event = .line ∧
            some entry.view.definition = machine.frame.definition?) ∧
          log.map (fun entry => entry.view.line) =
            line :: (List.replicate count (body.map Statement.line ++ [line])).flatten ∧
          ((line :: body.map Statement.line).Nodup →
            (∀ statement ∈ body,
              log.countP (fun entry => entry.view.line = statement.line) = count) ∧
            log.countP (fun entry => entry.view.line = line) = count + 1))) := by
  refine ⟨fun flow => loop_eq_ok_iff plain loops sameLine rounds,
    fun count turns => ?_⟩
  obtain ⟨named, log, observer, logged⟩ := turns.reports hooked plain loops
  refine ⟨log, observer, fun traced quiet => ?_⟩
  obtain ⟨stillTraced, events, lines⟩ := logged traced quiet
  refine ⟨stillTraced, named, events, lines, fun distinct => ?_⟩
  obtain ⟨apart, distinct⟩ := List.nodup_cons.mp distinct
  have counted : ∀ place, log.countP (fun entry => entry.view.line = place) =
      (line :: turnLines line body count).count place := by
    intro place
    rw [← lines, List.count, List.countP_map]
    rfl
  refine ⟨fun statement member => ?_, ?_⟩
  · have placed := List.mem_map_of_mem (f := Statement.line) member
    have other : statement.line ≠ line := fun same => apart (same ▸ placed)
    rw [counted, List.count_cons_of_ne other.symm, count_turnLines, List.count_append,
      List.count_eq_one_of_mem distinct placed, List.count_eq_zero_of_not_mem (by simpa using other)]
    exact Nat.mul_one count
  · rw [counted, List.count_cons_self, count_turnLines, List.count_append,
      List.count_eq_zero_of_not_mem apart, List.count_singleton_self, Nat.zero_add, Nat.mul_one]

end

def growingBody : List Statement :=
  let short : Expr := .compare (.call (.name "len") [.positional (.name "a")]) [(.less, .int 3)]
  let append : Expr := .method (.name "a") "append" [.positional (.int 0)]
  [.mk 3 false (.expr (.conditional short append .none)), .mk 4 false .pass]

def growing : Form := .forLoop (.name "x") (.name "a") growingBody

def grow : Definition := ⟨0, "grow", [⟨"a", none⟩], [.mk 2 false growing], 1, 4, ["a", "x"]⟩

/-- Starting from one item, the loop takes three turns. -/
theorem loop_reports_growing :
    ∃ (machine after : Machine (List Entry)) (log : List Entry),
      executeStatement ⟨0, [grow], 5, some (.logging .keepAll)⟩
          (level ⟨0, [grow], 5, some (.logging .keepAll)⟩ 9) 9 (.mk 2 false growing) machine =
        some (.ok .normal, after) ∧
      after.observer = machine.observer ++ log ∧
      log.map (fun entry => entry.view.line) = [2, 3, 4, 2, 3, 4, 2, 3, 4, 2] ∧
      log.countP (fun entry => entry.view.line = 2) = 4 := by
  let environment : Environment (List Entry) := ⟨0, [grow], 5, some (.logging .keepAll)⟩
  let listed := Heap.empty.newList #[.int 7]
  let caller : Machine (List Entry) := .start listed.2 .empty []
  let machine := caller.activated environment grow #[some listed.1, none]
  let run := executeStatement environment (level environment 9) 9 (.mk 2 false growing) machine
  have events : run.map (fun ended => (failed ended.1, (ended.2.observer.drop 1).map fun entry =>
      (entry.event, entry.answer))) = some (false, List.replicate 10 (.line, .keep)) := by
    decide +kernel
  obtain ⟨⟨result, after⟩, ended, found⟩ := Option.map_eq_some_iff.mp events
  obtain ⟨succeeded, entries⟩ := Prod.mk.inj found
  obtain ⟨flow, rfl⟩ : ∃ flow, result = .ok flow := by
    cases result with
    | ok flow => exact ⟨flow, rfl⟩
    | error error => cases succeeded
  have plain : ∀ statement ∈ growingBody, statement.isPlain = true := by decide
  have hooked : environment.hook = some (.logging .keepAll) := rfl
  have loops : growing.loopBody? = some growingBody := rfl
  obtain ⟨rfl, count, -, turns⟩ := ((loop_reports hooked plain loops false 9).1 flow).mp ended
  obtain ⟨log, observer, told⟩ := (loop_reports hooked plain loops false 9).2 count turns
  have logged : log.map (fun entry => (entry.event, entry.answer)) =
      List.replicate 10 (.line, .keep) := by
    rw [← entries, observer]
    rfl
  have quiet : Quiet log := by
    intro entry member
    have pair := List.eq_of_mem_replicate (logged ▸ List.mem_map_of_mem member)
    obtain ⟨event, answer⟩ := Prod.mk.inj pair
    exact ⟨by rw [event]; nofun, answer⟩
  obtain ⟨-, -, -, lines, counts⟩ := told rfl quiet
  have ten : log.length = 10 := by simpa using congrArg List.length logged
  have long : log.length = count * 3 + 1 := by
    simpa [growingBody] using congrArg List.length lines
  obtain rfl : count = 3 := by omega
  exact ⟨machine, after, log, ended, observer, lines, (counts (by decide)).2⟩

end Stepwise.Run
