import Mathlib
import Stepwise.Proofs.Parsing.Reading
import Stepwise.Proofs.Settling

/-!
Which line a frame reported last.

Under a hook that keeps all frames, the line that a frame reported last when one of its statements
starts is the line that carries the statement.  So a frame has reported the line that it is on exactly
if the statement there is carried by its own line.
-/

namespace Stepwise.Run

open Script Effect

section

variable {σ : Type} (environment : Environment σ)

/-- The body of a `while` loop starts in the second machine, in a run of the loop from the first. -/
inductive WhileEnters (below : Level σ) (line : Nat) (test : Expr) (body : List Statement) :
    Machine σ → Machine σ → Prop where
  | first {machine inner : Machine σ} :
      holds below test (machine.reachLine environment line) = some (.ok true, inner) →
      WhileEnters below line test body machine inner
  | again {machine inner next entered : Machine σ} {flow : Flow} :
      holds below test (machine.reachLine environment line) = some (.ok true, inner) →
      below.execute body inner = some (.ok flow, next) → flow = .normal ∨ flow = .continuing →
      WhileEnters below line test body next entered →
      WhileEnters below line test body machine entered

/-- The body of a `for` loop starts in the second machine, in a run of the loop over a walk from the
first. -/
inductive ForEnters (below : Level σ) (line : Nat) (target : Target) (body : List Statement) :
    Walk → Machine σ → Machine σ → Prop where
  | first {walk rest : Walk} {item : Value} {machine fetched inner : Machine σ} :
      onHeap (Action.next walk) machine = some (.ok (some (item, rest)), fetched) →
      assign below target item fetched = some (.ok (), inner) →
      ForEnters below line target body walk machine inner
  | again {walk rest : Walk} {item : Value} {machine fetched inner next entered : Machine σ}
      {flow : Flow} :
      onHeap (Action.next walk) machine = some (.ok (some (item, rest)), fetched) →
      assign below target item fetched = some (.ok (), inner) →
      below.execute body inner = some (.ok flow, next) → flow = .normal ∨ flow = .continuing →
      ForEnters below line target body rest (next.reachLine environment line) entered →
      ForEnters below line target body walk machine entered

/-- In a run of a block from the first machine, a statement of the block or of a block inside of it
starts in the second machine.  Its line is announced, and nothing else of it has run. -/
inductive Starts : (fuel : Nat) → List Statement → Machine σ → Statement → Machine σ → Prop where
  | here {fuel : Nat} {statement : Statement} {rest : List Statement} {machine : Machine σ} :
      Starts (fuel + 1) (statement :: rest) machine statement
        (machine.announced environment statement)
  | later {fuel : Nat} {statement started : Statement} {rest : List Statement}
      {machine next after : Machine σ} :
      executeStatement environment (level environment fuel) fuel statement machine =
        some (.ok .normal, next) →
      Starts fuel.succ rest next started after →
      Starts (fuel + 1) (statement :: rest) machine started after
  | branch {fuel line : Nat} {sameLine truth : Bool} {test : Expr} {body orelse rest : List Statement}
      {started : Statement} {machine tested after : Machine σ} :
      holds (level environment fuel) test
        (machine.announced environment (.mk line sameLine (.branch test body orelse))) =
          some (.ok truth, tested) →
      Starts fuel (if truth then body else orelse) tested started after →
      Starts (fuel + 1) (.mk line sameLine (.branch test body orelse) :: rest) machine started after
  | whileLoop {fuel line : Nat} {sameLine : Bool} {test : Expr} {body rest : List Statement}
      {started : Statement} {machine entered after : Machine σ} :
      WhileEnters environment (level environment fuel) line test body machine entered →
      Starts fuel body entered started after →
      Starts (fuel + 1) (.mk line sameLine (.whileLoop test body) :: rest) machine started after
  | forLoop {fuel line : Nat} {sameLine : Bool} {target : Target} {iterable : Expr}
      {body rest : List Statement} {started : Statement} {value : Value} {walk : Walk}
      {machine evaluated walked entered after : Machine σ} :
      (level environment fuel).evaluate iterable (machine.reachLine environment line) =
        some (.ok value, evaluated) →
      onHeap (Action.walk value) evaluated = some (.ok walk, walked) →
      ForEnters environment (level environment fuel) line target body walk walked entered →
      Starts fuel body entered started after →
      Starts (fuel + 1) (.mk line sameLine (.forLoop target iterable body) :: rest) machine started
        after

end

section

variable {environment : Environment (List Entry)}
  (hooked : environment.hook = some (.logging .keepAll)) {fuel : Nat}
  {outer : List (Option Nat)} {before : Option Nat} {machine after : Machine (List Entry)}

include hooked

theorem WhileEnters.stands {line started : Nat} {test : Expr} {body : List Statement}
    (enters : WhileEnters environment (level environment fuel) line test body machine after)
    (marked : Marked body) (stands : Stands outer started before machine) :
    Stands outer line (some line) after := by
  induction enters generalizing started before with
  | first tested => exact (stands.reachLine hooked line).still (holds_still hooked tested)
  | again tested ran _ _ inductionHypothesis =>
      have stood := (stands.reachLine hooked line).still (holds_still hooked tested)
      rcases blocks_settle hooked fuel body marked _ _ _ _ _ _ stood ran with
        ⟨_, rfl⟩ | ⟨position, _, settled⟩
      · exact inductionHypothesis stood
      · exact inductionHypothesis settled

theorem ForEnters.stands {line : Nat} {target : Target} {body : List Statement} {walk : Walk}
    (enters : ForEnters environment (level environment fuel) line target body walk machine after)
    (marked : Marked body) (stands : Stands outer line (some line) machine) :
    Stands outer line (some line) after := by
  induction enters with
  | first fetched assigned =>
      exact (stands.still (onHeap_still fetched)).still (assign_still hooked assigned)
  | again fetched assigned ran _ _ inductionHypothesis =>
      have stood := (stands.still (onHeap_still fetched)).still (assign_still hooked assigned)
      rcases blocks_settle hooked fuel body marked _ _ _ _ _ _ stood ran with
        ⟨_, rfl⟩ | ⟨position, _, settled⟩
      · exact inductionHypothesis (stood.reachLine hooked line)
      · exact inductionHypothesis (settled.reachLine hooked line)

/-- When a statement starts, what carries it was reported last. -/
theorem Starts.stands {block : List Statement} {started : Statement}
    (starts : Starts environment fuel block machine started after) (marked : Marked block)
    {reached : Nat} (stands : Stands outer reached before machine) :
    ∃ carrier, (started, carrier) ∈ blockPositions before block ∧
      Stands outer started.line carrier after := by
  induction starts generalizing reached before with
  | here =>
      exact ⟨_, List.mem_append_left _ (Statement.mem_positions _ _),
        stands.announced hooked _⟩
  | later ran _ inductionHypothesis =>
      obtain ⟨position, _, stood, following⟩ :=
        executeStatement_settles hooked (blocks_settle hooked _) _ marked stands ran
      obtain ⟨carrier, member, reached⟩ := inductionHypothesis marked.tail stood
      -- where the first statement settled makes no difference to the positions of the rest
      rw [following] at member
      exact ⟨carrier, List.mem_append_right _ member, reached⟩
  | @branch fuel line sameLine truth test body orelse rest _ _ _ _ tested _ inductionHypothesis =>
      have announced := stands.announced hooked (.mk line sameLine (.branch test body orelse))
      have stood := announced.still (holds_still hooked tested)
      cases marked with
      | simple _ _ simple _ => cases simple
      | branch _ _ _ markedBody markedOrelse _ _ =>
          cases truth with
          | true =>
              obtain ⟨carrier, member, reached⟩ := inductionHypothesis markedBody stood
              refine ⟨carrier, mem_blockPositions_of_inner ?_ rest, reached⟩
              rw [Statement.form, Form.positions_branch]
              exact List.mem_append_left _ member
          | false =>
              obtain ⟨carrier, member, reached⟩ := inductionHypothesis markedOrelse stood
              refine ⟨carrier, mem_blockPositions_of_inner ?_ rest, reached⟩
              rw [Statement.form, Form.positions_branch]
              exact List.mem_append_right _ member
  | @whileLoop _ _ _ _ _ rest _ _ _ _ enters _ inductionHypothesis =>
      cases marked with
      | simple _ _ simple _ => cases simple
      | whileLoop _ _ _ markedBody _ _ =>
          have stood := enters.stands hooked markedBody stands
          obtain ⟨carrier, member, reached⟩ := inductionHypothesis markedBody stood
          exact ⟨carrier, mem_blockPositions_of_inner member rest, reached⟩
  | @forLoop _ line _ _ _ _ rest _ _ _ _ _ _ _ _ evaluated walked enters _ inductionHypothesis =>
      cases marked with
      | simple _ _ simple _ => cases simple
      | forLoop _ _ _ _ markedBody _ _ =>
          have arrived := stands.reachLine hooked line
          have ready := (arrived.still (evaluate_still hooked evaluated)).still (onHeap_still walked)
          have stood := enters.stands hooked markedBody ready
          obtain ⟨carrier, member, reached⟩ := inductionHypothesis markedBody stood
          exact ⟨carrier, mem_blockPositions_of_inner member rest, reached⟩

end

/-- An event that closes a frame comes on a line where the frame can end, after what it reported
last. -/
def Entry.ClosesAfter (entry : Entry) (last : Option Nat) : Prop :=
  entry.event = .exit ∨ entry.event = .exception →
    entry.view.definition.Halts entry.view.line last

theorem Entry.closesAfter_of_ne {entry : Entry} (last : Option Nat) (exit : entry.event ≠ .exit)
    (exception : entry.event ≠ .exception) : entry.ClosesAfter last := by
  intro ending
  rcases ending with ending | ending
  · exact absurd ending exit
  · exact absurd ending exception

def ClosesWell (log : List Entry) : Prop :=
  ∀ before entry later, log = before ++ entry :: later → entry.ClosesAfter (lastLine before)

theorem ClosesWell.nil : ClosesWell [] := by
  intro before entry later same
  cases before <;> cases same

theorem ClosesWell.append_singleton {log : List Entry} (closes : ClosesWell log) {entry : Entry}
    (last : entry.ClosesAfter (lastLine log)) : ClosesWell (log ++ [entry]) := by
  intro before other later same
  rcases List.eq_nil_or_concat later with rfl | ⟨others, final, rfl⟩
  · obtain ⟨rfl, final⟩ := List.append_inj' same rfl
    obtain rfl := List.singleton_inj.mp final
    exact last
  · rw [List.concat_eq_append, ← List.cons_append, ← List.append_assoc] at same
    obtain ⟨rfl, -⟩ := List.append_inj' same rfl
    exact closes before other others rfl

theorem ClosesWell.append_closing {log closing : List Entry} (closes : ClosesWell log)
    {failed : Bool} (events : closing.map Entry.event = closingEvents true failed)
    (halts : ∀ entry ∈ closing, entry.view.definition.Halts entry.view.line (lastLine log)) :
    ClosesWell (log ++ closing) := by
  cases failed with
  | false =>
      obtain ⟨exit, rfl, -⟩ := List.map_eq_singleton_iff.mp events
      exact closes.append_singleton fun _ => halts exit List.mem_cons_self
  | true =>
      obtain ⟨raised, _, rfl, event, rest⟩ := List.map_eq_cons_iff.mp events
      obtain ⟨exit, rfl, -⟩ := List.map_eq_singleton_iff.mp rest
      have same : lastLine (log ++ [raised]) = lastLine log := by
        rw [lastLine, openLines_append_singleton, Entry.track_exception event, lastLine]
      have first : ClosesWell (log ++ [raised]) :=
        closes.append_singleton fun _ => halts raised List.mem_cons_self
      rw [List.append_cons]
      refine first.append_singleton fun _ => ?_
      rw [same]
      exact halts exit (List.mem_cons_of_mem _ List.mem_cons_self)

def closingAccount : Account (List Entry) where
  Allows _ _ before after := ClosesWell before → ClosesWell after
  stay _ _ _ := id
  trans before after := after ∘ before

def closingCourse : Course (List Entry) where
  Leads _ start finish := ClosesWell start.observer → ClosesWell finish.observer
  stay _ _ := id
  trans before after := after ∘ before
  withHeap _ _ _ _ := id

section

variable {environment : Environment (List Entry)}
  (hooked : environment.hook = some (.logging .keepAll))

include hooked

theorem body_halts {definition : Definition} (marked : Marked definition.body)
    {slots : Array (Option Value)} {fuel : Nat} {machine inner : Machine (List Entry)}
    {flow : Except RuntimeError Flow}
    (ran : (level environment fuel).execute definition.body
      (machine.activated environment definition slots) = some (flow, inner)) :
    ∃ line last, Stands (openLines machine.observer) line last inner ∧ definition.Halts line last := by
  have opened := activated_stands hooked definition slots machine
  rcases blocks_settle hooked fuel _ marked _ _ _ _ _ _ opened ran with
    ⟨_, rfl⟩ | ⟨position, member, stands⟩
  · exact ⟨_, _, opened, .inl ⟨rfl, rfl⟩⟩
  · exact ⟨_, _, stands, .inr ⟨position, member, rfl, rfl⟩⟩

theorem reachLine_closes (machine : Machine (List Entry)) (line : Nat)
    (closes : ClosesWell machine.observer) :
    ClosesWell (machine.reachLine environment line).observer := by
  cases traced : machine.frame.isTraced with
  | false =>
      rw [machine.reachLine_of_untraced environment line traced]
      exact closes
  | true =>
      obtain ⟨entry, event, -, reached⟩ := reachLine_keeping hooked traced line
      rw [reached]
      exact closes.append_singleton
        (Entry.closesAfter_of_ne _ (by rw [event]; nofun) (by rw [event]; nofun))

theorem callFunction_closes (marked : ∀ definition ∈ environment.functions, Marked definition.body)
    {fuel : Nat}
    (executes : ∀ block, closingCourse.Follows ((level environment fuel).execute block))
    {function : FunctionObject} {arguments : List Value} {keywords : Keywords}
    {machine after : Machine (List Entry)} {result : Except RuntimeError Value}
    (ended : callFunction environment (level environment fuel) function arguments keywords machine =
      some (result, after)) (closes : ClosesWell machine.observer) :
    ClosesWell after.observer := by
  rcases callFunction_ended ended with
    ⟨error, refused, rfl, rfl⟩ | ⟨definition, slots, flow, inner, admitted, ran, rfl, rfl⟩
  · exact closes
  · have member := List.mem_of_getElem? (Environment.admission_ok admitted).1
    obtain ⟨line, last, stands, halts⟩ := body_halts hooked (marked definition member) ran
    have running := ((keeping hooked).execute fuel _ _ _ _ ran).definition
    have closed := executes _ _ _ _ ran
    obtain ⟨closing, events, views, left⟩ :=
      returned_logging hooked (running.trans (activated_definition? ..)) machine.frame (failed flow)
    rw [stands.traced] at events
    have opened : ClosesWell (machine.activated environment definition slots).observer := by
      rw [activated_logging hooked definition slots machine]
      exact closes.append_singleton (Entry.closesAfter_of_ne _ nofun nofun)
    rw [left]
    refine (closed opened).append_closing events ?_
    intro entry member
    obtain ⟨named, place⟩ := views entry member
    rw [named, place, stands.line, lastLine_of_openLines stands.lines]
    exact halts

def closing (marked : ∀ definition ∈ environment.functions, Marked definition.body) :
    Discipline environment where
  account := closingAccount
  binding := closingCourse
  statement := closingCourse
  binding_of_expression led := led.observer
  statement_of_binding led := led
  store _ _ _ := id
  moveToLine _ _ := id
  reportLine line machine := reachLine_closes hooked machine line
  callFunction := by
    intro fuel function arguments keywords executes machine result after ended
    have kept := (keeping hooked).callFunction fuel function arguments keywords
      ((keeping hooked).execute fuel) machine result after ended
    exact ⟨kept.frame, kept.depth, callFunction_closes hooked marked executes ended⟩

end

/-- Under a hook that keeps all frames of an accepted program, what a frame reported last is known.

When a statement of a function starts, in whatever run, its frame is on the line of the statement and
reported last the line that carries it; so it has reported the line that it is on exactly if that line
carries the statement.  When a frame ends, it is on the line of a statement and reported last the
line that carries that one, or nothing of it has run.  If all statements of the function are carried
by their own lines, the frame has reported the line that it is on, unless that is the line of the
header. -/
theorem Namespace.call?_reports (space : Namespace)
    (accepted : Program.parse? space.source = some (.ok space.program)) (callLimit : Nat) :
    let environment :=
      Namespace.environment space.id space.program callLimit (some (Hook.logging .keepAll))
    (∀ definition ∈ space.program.functions, ∀ slots fuel, ∀ machine : Machine (List Entry),
      ∀ statement after,
      Starts environment fuel definition.body (machine.activated environment definition slots)
        statement after →
      after.frame.line = statement.line ∧
      (∃ carrier, (statement, carrier) ∈ definition.positions ∧
        openLines after.observer = carrier :: openLines machine.observer ∧
        (lastLine after.observer = some statement.line ↔ carrier = some statement.line)) ∧
      (definition.Reported →
        statement.line = definition.firstLine ∨
          lastLine after.observer = some statement.line)) ∧
    ∀ callable arguments outcome,
      space.call? callLimit (some (Hook.logging .keepAll)) [] callable arguments = some outcome →
      ∀ before entry later, outcome.observer = before ++ entry :: later →
      entry.event = .exit ∨ entry.event = .exception →
      entry.view.definition.Halts entry.view.line (lastLine before) ∧
      (entry.view.definition.Reported →
        entry.view.line = entry.view.definition.firstLine ∨
          lastLine before = some entry.view.line) := by
  intro environment
  have hooked : environment.hook = some (.logging .keepAll) := rfl
  have marked : ∀ definition ∈ environment.functions, Marked definition.body :=
    fun definition member => ((Program.parse?_shapes accepted).2 definition member).marked
  refine ⟨?_, ?_⟩
  · intro definition member slots fuel machine statement after starts
    have opened := activated_stands hooked definition slots machine
    obtain ⟨carrier, position, stands⟩ := starts.stands hooked (marked definition member) opened
    have last := lastLine_of_openLines stands.lines
    refine ⟨stands.line, ⟨carrier, position, stands.lines, by rw [last]⟩, ?_⟩
    intro reported
    rw [last]
    exact reported _ position
  · intro callable arguments outcome ended before entry later same ending
    obtain ⟨after, ran, known⟩ := Namespace.call?_ended ended
    have closes := ((closing hooked marked).call _ _ _ _ _ _ ran).observer ClosesWell.nil
    rw [known] at closes
    have halts := closes before entry later same ending
    exact ⟨halts, fun reported => reported.halts halts⟩

/-- A function with an `else` that shares its line with its block. -/
def eitherWay : Definition :=
  ⟨0, "f", [⟨"x", none⟩],
    [.mk 2 false (.branch (.name "x") [.mk 2 true .pass] [.mk 3 true .pass])], 1, 3, ["x"]⟩

def eitherWaySpace : Namespace :=
  ⟨0, "def f(x):\n  if x: pass\n  else: pass\n", ⟨[eitherWay], [.mk 1 false (.define 0)]⟩,
    .empty, .empty⟩

/-- The block behind the `else` is on line 3, and when it starts its frame has reported line 2. -/
theorem Namespace.call?_reports_eitherWay :
    ∃ (machine after : Machine (List Entry)) (carrier : Option Nat),
      Starts
        (environment eitherWaySpace.id eitherWaySpace.program 5 (some (Hook.logging .keepAll))) 2
        eitherWay.body machine (.mk 3 true .pass) after ∧
      lastLine after.observer = some 2 ∧ openLines after.observer = [carrier] ∧
      (Statement.mk 3 true .pass, carrier) ∈ eitherWay.positions := by
  let environment :=
    Namespace.environment eitherWaySpace.id eitherWaySpace.program 5 (some (Hook.logging .keepAll))
  have accepted : Program.parse? eitherWaySpace.source = some (.ok eitherWaySpace.program) := by cbv
  let caller : Machine (List Entry) := .start .empty .empty []
  let machine := caller.activated environment eitherWay #[some (.bool false)]
  have tested : holds (level environment 1) (.name "x")
      (machine.announced environment
        (.mk 2 false (.branch (.name "x") [.mk 2 true .pass] [.mk 3 true .pass]))) =
      some (.ok false, _) := rfl
  have starts : Starts environment 2 eitherWay.body machine (.mk 3 true .pass) _ :=
    .branch tested .here
  obtain ⟨-, ⟨carrier, position, lines, -⟩, -⟩ :=
    (Namespace.call?_reports eitherWaySpace accepted 5).1 eitherWay List.mem_cons_self _ _ caller _ _
      starts
  exact ⟨_, _, carrier, starts, rfl, lines, position⟩

/-- That statement is not carried by its own line. -/
example : ¬ eitherWay.Reported := by decide

end Stepwise.Run
