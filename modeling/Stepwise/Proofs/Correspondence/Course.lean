import Stepwise.Proofs.Correspondence.Level

/-!
Properties of single runs.

A `Course` relates the machine that a run starts from to the one that it ends in.  It is a
correspondence that ignores its second side, so a property that every effect of the interpreter has
is a property of every run: `Courses` asks for that of each effect.  An `Account` is the part of a
course that tells what an expression may do to the hook's state.
-/

namespace Stepwise.Run

open Script Effect

variable {σ α : Type}

/-- What the ends of runs have to do with their starts, by whether they failed. -/
structure Course (σ : Type) where
  Leads : (failed : Bool) → (start finish : Machine σ) → Prop
  stay (failed : Bool) (machine : Machine σ) : Leads failed machine machine
  trans {failed : Bool} {start middle finish : Machine σ} :
    Leads false start middle → Leads failed middle finish → Leads failed start finish
  withHeap (failed : Bool) (machine : Machine σ) (heap : Heap) :
    machine.heap.Evolves heap → Leads failed machine { machine with heap := heap }

namespace Course

variable (course : Course σ)

def Follows (effect : Effect σ α) : Prop :=
  ∀ machine result after, effect machine = some (result, after) →
    course.Leads (failed result) machine after

theorem follows_of_unchanged {effect : Effect σ α}
    (unchanged : ∀ machine, ∃ result, effect machine = some (result, machine)) :
    course.Follows effect := by
  intro machine result after ended
  obtain ⟨result', ended'⟩ := unchanged machine
  rw [ended'] at ended
  cases ended
  exact course.stay _ _

def congruence : Congruence σ σ where
  Relates effect _ := course.Follows effect
  pure value := course.follows_of_unchanged fun _ => ⟨.ok value, rfl⟩
  bind := by
    intro α β effect _ next _ follows nextFollows machine result after ended
    rcases bind_ended ended with ⟨error, raised, rfl⟩ | ⟨value, middle, reached, ended⟩
    · exact follows machine _ after raised
    · have led := follows machine _ middle reached
      exact course.trans led (nextFollows value middle result after ended)
  raise error := course.follows_of_unchanged fun _ => ⟨.error error, rfl⟩
  exhausted machine result after ended := by cases ended
  onHeap := by
    intro α action grows machine result after ended
    rw [onHeap_apply] at ended
    obtain ⟨⟨result, heap⟩, stepped, ended⟩ := Option.map_eq_some_iff.mp ended
    cases ended
    exact course.withHeap _ machine heap (grows _ _ _ stepped)

end Course

theorem load_unchanged (name : String) (machine : Machine σ) :
    ∃ result, load name machine = some (result, machine) := by
  simp only [load, bind_apply, binding?]
  cases bindingOf? machine.frame machine.globals name with
  | some value => exact ⟨_, rfl⟩
  | none =>
      simp only [bind_apply, Effect.frame]
      split
      · exact ⟨_, rfl⟩
      · cases Builtin.ofName? name <;> exact ⟨_, rfl⟩

structure Frame.Resembles (frame other : Frame) : Prop where
  definition : other.definition? = frame.definition?
  traced : other.isTraced = frame.isTraced
  line : other.line = frame.line
  scopes : other.scopes = frame.scopes

/-- A store changes the globals, or the locals of the frame if it is that of a function. -/
theorem store_apply (name : String) (value : Value) (machine : Machine σ) :
    ∃ result globals frame, machine.frame.Resembles frame ∧
      (machine.frame.definition?.isSome → globals = machine.globals) ∧
      store name value machine =
        some (result, { machine with globals := globals, frame := frame }) := by
  have refused : ∀ error : RuntimeError, ∃ result globals frame,
      machine.frame.Resembles frame ∧
        (machine.frame.definition?.isSome → globals = machine.globals) ∧
        (throw error : Effect σ Unit) machine =
          some (result, { machine with globals := globals, frame := frame }) := by
    intro error
    exact ⟨.error error, machine.globals, machine.frame, ⟨rfl, rfl, rfl, rfl⟩, fun _ => rfl, rfl⟩
  simp only [store, bind_apply, Effect.frame]
  cases running : machine.frame.activation with
  | none =>
      refine ⟨.ok (), _, machine.frame, ⟨rfl, rfl, rfl, rfl⟩, fun inside => ?_, rfl⟩
      simp [Frame.definition?, running] at inside
  | some activation =>
      simp only
      cases activation.position? name with
      | none => exact refused _
      | some position =>
          simp only
          split
          · refine ⟨.ok (), machine.globals, _, ?_, fun _ => rfl, rfl⟩
            refine ⟨?_, ?_, rfl, rfl⟩
            · simp only [Frame.definition?, running, Option.map_some]
            · simp only [Frame.isTraced, running, Option.map_some]
          · exact refused _

/-- Frames that differ at most in the variables of the innermost comprehension. -/
structure Frame.Within (frame other : Frame) : Prop where
  activation : other.activation = frame.activation
  line : other.line = frame.line
  outer : other.scopes.tail = frame.scopes.tail

namespace Frame.Within

theorem refl (frame : Frame) : frame.Within frame := ⟨rfl, rfl, rfl⟩

theorem trans {first second third : Frame} (before : first.Within second)
    (after : second.Within third) : first.Within third :=
  ⟨after.activation.trans before.activation, after.line.trans before.line,
    after.outer.trans before.outer⟩

theorem bind (frame : Frame) (name : String) (value : Value) :
    frame.Within (match frame.scopes with
      | [] => frame
      | scope :: outer => { frame with scopes := scope.set name value :: outer }) := by
  obtain ⟨activation, line, scopes⟩ := frame
  cases scopes <;> exact ⟨rfl, rfl, rfl⟩

/-- Closing the scope that was opened for a comprehension gives back the frame around it. -/
theorem close {frame inner : Frame}
    (within : ({ frame with scopes := .empty :: frame.scopes } : Frame).Within inner) :
    ({ inner with scopes := inner.scopes.tail } : Frame) = frame := by
  obtain ⟨activation, line, outer⟩ := within
  show Frame.mk inner.activation inner.line inner.scopes.tail = frame
  rw [activation, line, outer]
  rfl

end Frame.Within

/-- A property of every run: a course for expressions, one for the clauses of comprehensions, which may
bind variables of their own, one for what may bind names of the frame, and one for statements. -/
structure Courses (environment : Environment σ) where
  expression : Course σ
  comprehension : Course σ
  binding : Course σ
  statement : Course σ
  comprehension_of_expression {failed : Bool} {start finish : Machine σ} :
    expression.Leads failed start finish → comprehension.Leads failed start finish
  binding_of_expression {failed : Bool} {start finish : Machine σ} :
    expression.Leads failed start finish → binding.Leads failed start finish
  statement_of_binding {failed : Bool} {start finish : Machine σ} :
    binding.Leads failed start finish → statement.Leads failed start finish
  write (output : String) (machine : Machine σ) :
    expression.Leads false machine { machine with output := output }
  bindVariable {frame : Frame} (machine : Machine σ) :
    machine.frame.Within frame → comprehension.Leads false machine { machine with frame := frame }
  inScope {α : Type} {effect : Effect σ α} :
    comprehension.Follows effect → expression.Follows (Effect.inScope effect)
  store {failed : Bool} {machine : Machine σ} (globals : Bindings) (frame : Frame) :
    machine.frame.Resembles frame →
      (machine.frame.definition?.isSome → globals = machine.globals) →
      binding.Leads failed machine { machine with globals := globals, frame := frame }
  moveToLine (line : Nat) (machine : Machine σ) :
    statement.Leads false machine { machine with frame := { machine.frame with line := line } }
  reportLine (line : Nat) (machine : Machine σ) :
    statement.Leads false machine (machine.reachLine environment line)
  callFunction (fuel : Nat) (function : FunctionObject) (arguments : List Value)
    (keywords : Keywords) :
    (∀ block, statement.Follows ((level environment fuel).execute block)) →
      expression.Follows
        (Run.callFunction environment (level environment fuel) function arguments keywords)

namespace Courses

variable {environment : Environment σ} (courses : Courses environment)

def correspondence : Correspondence environment environment where
  expression := courses.expression.congruence
  comprehension := courses.comprehension.congruence
  binding := courses.binding.congruence
  statement := courses.statement.congruence
  namespaceId := rfl
  functions := rfl
  comprehension_of_expression follows machine result after ended :=
    courses.comprehension_of_expression (follows machine result after ended)
  binding_of_expression follows machine result after ended :=
    courses.binding_of_expression (follows machine result after ended)
  statement_of_binding follows machine result after ended :=
    courses.statement_of_binding (follows machine result after ended)
  binding? name := courses.expression.follows_of_unchanged fun _ => ⟨_, rfl⟩
  load name := courses.expression.follows_of_unchanged (load_unchanged name)
  write text := by
    intro machine result after ended
    cases ended
    exact courses.write _ machine
  bindVariable name value := by
    intro machine result after ended
    cases ended
    exact courses.bindVariable machine (Frame.Within.bind machine.frame name value)
  inScope := courses.inScope
  store name value := by
    intro machine result after ended
    obtain ⟨_, globals, frame, resembles, inside, stored⟩ := store_apply name value machine
    rw [stored] at ended
    cases ended
    exact courses.store globals frame resembles inside
  moveToLine line := by
    intro machine result after ended
    cases ended
    exact courses.moveToLine line machine
  reportLine line := by
    intro machine result after ended
    rw [reportLine_apply] at ended
    cases ended
    exact courses.reportLine line machine
  callFunction := courses.callFunction

theorem evaluate (fuel : Nat) (expr : Expr) :
    courses.expression.Follows ((level environment fuel).evaluate expr) :=
  (courses.correspondence.level fuel).evaluate expr

theorem call (callee : Callee) (fuel : Nat) (arguments : List Value) :
    courses.expression.Follows (callee.call environment fuel arguments) :=
  courses.correspondence.call callee fuel arguments

end Courses

/-- What expressions may do to the hook's state at a depth of calls, by whether they fail. -/
structure Account (σ : Type) where
  Allows : (depth : Nat) → (failed : Bool) → (before after : σ) → Prop
  stay (depth : Nat) (failed : Bool) (observer : σ) : Allows depth failed observer observer
  trans {depth : Nat} {failed : Bool} {before middle after : σ} :
    Allows depth false before middle → Allows depth failed middle after →
      Allows depth failed before after

namespace Account

variable (account : Account σ)

/-- A run that keeps its frame up to a relation, keeps its depth and does to the hook's state what
the account allows. -/
structure Keeps (same : Frame → Frame → Prop) (failed : Bool) (start finish : Machine σ) :
    Prop where
  frame : same start.frame finish.frame
  depth : finish.depth = start.depth
  observer : account.Allows start.depth failed start.observer finish.observer

def course (same : Frame → Frame → Prop) (refl : ∀ frame, same frame frame)
    (trans : ∀ {first second third}, same first second → same second third → same first third) :
    Course σ where
  Leads := account.Keeps same
  stay failed machine := ⟨refl _, rfl, account.stay _ _ _⟩
  trans {failed start middle finish} before after := by
    refine ⟨trans before.frame after.frame, after.depth.trans before.depth, ?_⟩
    have allowed := after.observer
    rw [before.depth] at allowed
    exact account.trans before.observer allowed
  withHeap failed machine _ _ := ⟨refl _, rfl, account.stay _ _ _⟩

def expression : Course σ :=
  account.course (fun frame other => other = frame) (fun _ => rfl) fun before after =>
    after.trans before

/-- The course of the clauses of a comprehension, which bind variables of their own. -/
def comprehension : Course σ :=
  account.course Frame.Within Frame.Within.refl Frame.Within.trans

theorem inScope {effect : Effect σ α} (follows : account.comprehension.Follows effect) :
    account.expression.Follows (Effect.inScope effect) := by
  intro machine result after ended
  rw [inScope_apply] at ended
  obtain ⟨⟨result, inner⟩, ran, ended⟩ := Option.map_eq_some_iff.mp ended
  obtain ⟨within, depth, observer⟩ := follows _ result inner ran
  cases ended
  exact ⟨within.close, depth, observer⟩

end Account

/-- A property of every run: what expressions do is on account, and what may bind names of the frame
and what statements do is on courses of their own. -/
structure Discipline (environment : Environment σ) where
  account : Account σ
  binding : Course σ
  statement : Course σ
  binding_of_expression {failed : Bool} {start finish : Machine σ} :
    account.expression.Leads failed start finish → binding.Leads failed start finish
  statement_of_binding {failed : Bool} {start finish : Machine σ} :
    binding.Leads failed start finish → statement.Leads failed start finish
  store {failed : Bool} {machine : Machine σ} (globals : Bindings) (frame : Frame) :
    machine.frame.Resembles frame →
      binding.Leads failed machine { machine with globals := globals, frame := frame }
  moveToLine (line : Nat) (machine : Machine σ) :
    statement.Leads false machine { machine with frame := { machine.frame with line := line } }
  reportLine (line : Nat) (machine : Machine σ) :
    statement.Leads false machine (machine.reachLine environment line)
  callFunction (fuel : Nat) (function : FunctionObject) (arguments : List Value)
    (keywords : Keywords) :
    (∀ block, statement.Follows ((level environment fuel).execute block)) →
      account.expression.Follows
        (Run.callFunction environment (level environment fuel) function arguments keywords)

namespace Discipline

variable {environment : Environment σ} (discipline : Discipline environment)

def courses : Courses environment where
  expression := discipline.account.expression
  comprehension := discipline.account.comprehension
  binding := discipline.binding
  statement := discipline.statement
  comprehension_of_expression kept :=
    ⟨kept.frame ▸ Frame.Within.refl _, kept.depth, kept.observer⟩
  binding_of_expression := discipline.binding_of_expression
  statement_of_binding := discipline.statement_of_binding
  write _ _ := ⟨rfl, rfl, discipline.account.stay _ _ _⟩
  bindVariable _ within := ⟨within, rfl, discipline.account.stay _ _ _⟩
  inScope := discipline.account.inScope
  store globals frame resembles _ := discipline.store globals frame resembles
  moveToLine := discipline.moveToLine
  reportLine := discipline.reportLine
  callFunction := discipline.callFunction

def correspondence : Correspondence environment environment := discipline.courses.correspondence

theorem levels (fuel : Nat) :
    discipline.correspondence.Levels (level environment fuel) (level environment fuel) :=
  discipline.correspondence.level fuel

theorem execute (fuel : Nat) (block : List Statement) :
    discipline.statement.Follows ((level environment fuel).execute block) :=
  (discipline.correspondence.level fuel).execute block

theorem call (callee : Callee) (fuel : Nat) (arguments : List Value) :
    discipline.account.expression.Follows (callee.call environment fuel arguments) :=
  discipline.courses.call callee fuel arguments

end Discipline

end Stepwise.Run
