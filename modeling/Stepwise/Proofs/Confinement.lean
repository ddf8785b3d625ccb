import Stepwise.Proofs.Correspondence.Course

/-!
What expressions and calls leave as they found it.

An expression may call functions, which have frames of their own, and may bind the variables of its
comprehensions, which have scopes of their own.  However it ends, it gives back the frame, the depth
of calls and the globals that it started from.  Names are bound by statements, and inside a function
these bind locals only, so that a call gives back the globals as well.
-/

namespace Stepwise.Run

open Script Effect

variable {σ α : Type}

/-- What code does that keeps its frame up to a relation: it gives back the depth and the globals, and
lets the heap grow, with iterators that only move forward. -/
structure Confined (same : Frame → Frame → Prop) (start finish : Machine σ) : Prop where
  frame : same start.frame finish.frame
  depth : finish.depth = start.depth
  globals : finish.globals = start.globals
  heap : start.heap.Evolves finish.heap

def confinedCourse (same : Frame → Frame → Prop) (refl : ∀ frame, same frame frame)
    (trans : ∀ {first second third}, same first second → same second third → same first third) :
    Course σ where
  Leads _ := Confined same
  stay _ machine := ⟨refl machine.frame, rfl, rfl, .refl machine.heap⟩
  trans before after :=
    ⟨trans before.frame after.frame, after.depth.trans before.depth,
      after.globals.trans before.globals, before.heap.trans after.heap⟩
  withHeap _ machine _ evolves := ⟨refl machine.frame, rfl, rfl, evolves⟩

def evaluating : Course σ :=
  confinedCourse (fun frame other => other = frame) (fun _ => rfl) fun before after =>
    after.trans before

def collecting : Course σ := confinedCourse Frame.Within Frame.Within.refl Frame.Within.trans

structure Executes (start finish : Machine σ) : Prop where
  definition : finish.frame.definition? = start.frame.definition?
  depth : finish.depth = start.depth
  globals : start.frame.definition?.isSome → finish.globals = start.globals
  heap : start.heap.Evolves finish.heap

def executing : Course σ where
  Leads _ := Executes
  stay _ machine := ⟨rfl, rfl, fun _ => rfl, .refl machine.heap⟩
  trans before after := by
    refine ⟨after.definition.trans before.definition, after.depth.trans before.depth,
      fun inside => ?_, before.heap.trans after.heap⟩
    have insideToo := inside
    rw [← before.definition] at insideToo
    exact (after.globals insideToo).trans (before.globals inside)
  withHeap _ _ _ evolves := ⟨rfl, rfl, fun _ => rfl, evolves⟩

theorem inScope_confined {effect : Effect σ α} (follows : collecting.Follows effect) :
    evaluating.Follows (Effect.inScope effect) := by
  intro machine result after ended
  rw [inScope_apply] at ended
  obtain ⟨⟨result, inner⟩, ran, ended⟩ := Option.map_eq_some_iff.mp ended
  obtain ⟨within, depth, globals, heap⟩ := follows _ result inner ran
  cases ended
  exact ⟨within.close, depth, globals, heap⟩

theorem reachLine_executes (environment : Environment σ) (line : Nat) (machine : Machine σ) :
    Executes machine (machine.reachLine environment line) := by
  unfold Machine.reachLine
  simp only
  split
  · rw [Machine.tell_snd]
    split
    · exact ⟨Frame.definition?_setTraced _ _, rfl, fun _ => rfl, .refl machine.heap⟩
    · exact ⟨rfl, rfl, fun _ => rfl, .refl machine.heap⟩
  · exact ⟨rfl, rfl, fun _ => rfl, .refl machine.heap⟩

/-- A call gives back the frame of its caller, the depth that it was made at, and the globals. -/
theorem callFunction_confined {environment : Environment σ} {below : Level σ}
    (executes : ∀ block, executing.Follows (below.execute block)) (function : FunctionObject)
    (arguments : List Value) (keywords : Keywords) :
    evaluating.Follows (callFunction environment below function arguments keywords) := by
  intro machine result after ended
  rcases callFunction_ended ended with
    ⟨error, _, rfl, rfl⟩ | ⟨definition, slots, flow, inner, _, ran, rfl, rfl⟩
  · exact evaluating.stay _ _
  · obtain ⟨observer, frame, activated, named⟩ :=
      machine.activated_eq environment definition slots
    obtain ⟨_, returned⟩ := inner.returned_eq environment machine.frame (failed flow)
    rw [activated] at ran
    obtain ⟨_, depth, globals, heap⟩ := executes _ _ _ _ ran
    have inside : frame.definition?.isSome := by rw [named]; rfl
    rw [returned]
    refine ⟨rfl, ?_, globals inside, heap⟩
    rw [depth, Nat.add_sub_cancel]

/-- Expressions are confined to their frame, and statements to the names of theirs. -/
def confinement (environment : Environment σ) : Courses environment where
  expression := evaluating
  comprehension := collecting
  binding := executing
  statement := executing
  comprehension_of_expression confined :=
    ⟨confined.frame ▸ Frame.Within.refl _, confined.depth, confined.globals, confined.heap⟩
  binding_of_expression confined :=
    ⟨by rw [confined.frame], confined.depth, fun _ => confined.globals, confined.heap⟩
  statement_of_binding executes := executes
  write _ machine := ⟨rfl, rfl, rfl, .refl machine.heap⟩
  bindVariable machine within := ⟨within, rfl, rfl, .refl machine.heap⟩
  inScope := inScope_confined
  store _ _ resembles inside := ⟨resembles.definition, rfl, inside, .refl _⟩
  moveToLine _ machine := ⟨rfl, rfl, fun _ => rfl, .refl machine.heap⟩
  reportLine := reachLine_executes environment
  callFunction _ function arguments keywords executes :=
    callFunction_confined executes function arguments keywords

/-- Evaluating an expression leaves its frame as it was and restores the depth of calls, whether it
ends with a value or with an error.  So every name means afterwards what it meant before. -/
theorem evaluate_confined (environment : Environment σ) (fuel : Nat) (expr : Expr)
    {machine after : Machine σ} {result : Except RuntimeError Value}
    (ended : (level environment fuel).evaluate expr machine = some (result, after)) :
    after.frame = machine.frame ∧ after.depth = machine.depth ∧
      ∀ name, bindingOf? after.frame after.globals name =
        bindingOf? machine.frame machine.globals name := by
  obtain ⟨frame, depth, globals, _⟩ :=
    (confinement environment).evaluate fuel expr machine result after ended
  refine ⟨frame, depth, fun name => ?_⟩
  rw [frame, globals]

/-- A comprehension that fails while its variable is bound: `[log / 0 for log in (x,)]`. -/
def failingComprehension : Expr :=
  .comprehension (.binary .divide (.name "log") (.int 0))
    [.mk (.name "log") (.tuple [.name "x"]) []]

/-- A function that adds its argument to the global `log`, and then fails in a comprehension whose
variable has the name of that global. -/
def note : Definition :=
  ⟨0, "note", [⟨"x", none⟩],
    [.mk 2 false (.expr (.method (.name "log") "append" [.positional (.name "x")])),
      .mk 3 false (.giveBack (some failingComprehension))], 1, 3, ["x"]⟩

/-- A namespace with an empty list and the function that adds to it. -/
def ledger : Namespace :=
  let (log, heap) := Heap.empty.newList #[]
  ⟨0, "", ⟨[note], []⟩, ⟨[("log", log)]⟩, heap⟩

def inNote : Machine Unit :=
  { Machine.start ledger.heap ledger.globals () with
    depth := 1
    frame := .ofCall note #[some (.bool true)] }

/-- The comprehension fails, and `log` is the global list again. -/
theorem evaluate_confined_failing :
    ∃ result after,
      (level (Namespace.environment 0 ledger.program 5 (none : Option (Hook Unit))) 9).evaluate
        failingComprehension inNote = some (result, after) ∧
      failed result = true ∧ after.frame = inNote.frame ∧ after.depth = inNote.depth ∧
      ∀ name, bindingOf? after.frame after.globals name =
        bindingOf? inNote.frame inNote.globals name := by
  have fails : ((level (Namespace.environment 0 ledger.program 5
      (none : Option (Hook Unit))) 9).evaluate failingComprehension inNote).map
        (fun ended => failed ended.1) = some true := by
    decide +kernel
  obtain ⟨⟨result, after⟩, ended, fails⟩ := Option.map_eq_some_iff.mp fails
  exact ⟨result, after, ended, fails, evaluate_confined _ _ _ ended⟩

/-- A call leaves the globals of its namespace as they were, whether it returns or fails.  All that it
changes of what was there are the contents of lists and dicts and the places of iterators. -/
theorem Namespace.call?_confined (space : Namespace) (callLimit : Nat) (hook : Option (Hook σ))
    (observer : σ) (callable : Callable) (arguments : List Value) {outcome : Outcome σ}
    (ended : space.call? callLimit hook observer callable arguments = some outcome) :
    ∃ after,
      callable.callee.call (environment space.id space.program callLimit hook) ampleFuel arguments
        (Machine.start space.heap space.globals observer) = some (outcome.result, after) ∧
      after.globals = space.globals ∧ after.heap = outcome.heap ∧
      space.heap.Grows outcome.heap := by
  rw [Namespace.call?_eq_map] at ended
  obtain ⟨⟨result, after⟩, ran, rfl⟩ := Option.map_eq_some_iff.mp ended
  obtain ⟨_, _, globals, heap⟩ :=
    (confinement (environment space.id space.program callLimit hook)).call callable.callee ampleFuel
      arguments _ _ after ran
  exact ⟨after, ran, globals, rfl, heap.toGrows⟩

/-- The call adds its argument to the list that `log` is bound to, and fails. -/
theorem Namespace.call?_ledger_confined :
    ∃ outcome after,
      ledger.call? 5 (none : Option (Hook Unit)) () ⟨"note", .function ⟨0, 0, "note", []⟩⟩
        [.bool true] = some outcome ∧
      failed outcome.result = true ∧ (outcome.heap.list 0).size = 1 ∧
      Callee.call (environment ledger.id ledger.program 5 (none : Option (Hook Unit))) ampleFuel
          [.bool true] (.function ⟨0, 0, "note", []⟩)
          (Machine.start ledger.heap ledger.globals ()) = some (outcome.result, after) ∧
      after.globals = ledger.globals ∧ after.heap = outcome.heap ∧
      ledger.heap.Grows outcome.heap := by
  have noted : (ledger.call? 5 (none : Option (Hook Unit)) ()
      ⟨"note", .function ⟨0, 0, "note", []⟩⟩ [.bool true]).map
        (fun outcome => (failed outcome.result, (outcome.heap.list 0).size)) = some (true, 1) := by
    decide +kernel
  obtain ⟨outcome, ended, noted⟩ := Option.map_eq_some_iff.mp noted
  obtain ⟨fails, size⟩ := Prod.mk.inj noted
  obtain ⟨after, confined⟩ := call?_confined ledger 5 _ _ _ _ ended
  exact ⟨outcome, after, ended, fails, size, confined⟩

end Stepwise.Run
