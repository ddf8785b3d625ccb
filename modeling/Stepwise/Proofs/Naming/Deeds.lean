import Stepwise.Proofs.Log

/-!
What a frame reports and which names it binds, in order.

The deeds of code are read off its run: they follow the code statement by statement, and ask the run
itself how each part of it ends.  Expressions have none, since the variables of a comprehension are no
names of the frame, and the frames that are called have deeds of their own.
-/

namespace Stepwise.Run

open Script Effect

inductive Deed where
  /-- The hook is told about an event of the frame. -/
  | reports (event : Event) (view : FrameView)
  /-- A statement, or the fetch of a loop, gives a value to a name. -/
  | binds (name : String)

section

variable {σ α : Type} (environment : Environment σ)

/-- The deeds of what comes after an effect that has none: those of `next` if the effect ends with a
result, and nothing otherwise. -/
def following (effect : Effect σ α) (next : α → Machine σ → List Deed) (machine : Machine σ) :
    List Deed :=
  match effect machine with
  | some (.ok value, after) => next value after
  | _ => []

def doing (own : Machine σ → List Deed) (effect : Effect σ α) (next : α → Machine σ → List Deed)
    (machine : Machine σ) : List Deed :=
  own machine ++ following effect next machine

/-- The report of an event of the running frame, if there is a hook. -/
def reported (event : Event) (machine : Machine σ) : List Deed :=
  match environment.hook, machine.frame.activation with
  | some _, some activation =>
      [.reports event ⟨machine.heap, environment.namespaceId, activation.definition,
        activation.slots, machine.frame.line⟩]
  | _, _ => []

/-- The report of a line that the running frame comes to, if the hook still wants its events. -/
def lineDeeds (line : Nat) (machine : Machine σ) : List Deed :=
  if machine.frame.isTraced then
    reported environment .line { machine with frame := { machine.frame with line := line } }
  else []

variable (below : Level σ)

mutual

def assignDeeds : Target → Value → Machine σ → List Deed
  | .name name, value => following (store name value) fun _ _ => [.binds name]
  | .index _ _, _ => fun _ => []
  | .unpack targets, value =>
      following (onHeap (unpacked value targets.length)) fun values => assignAllDeeds targets values

def assignAllDeeds : List Target → List Value → Machine σ → List Deed
  | target :: targets, value :: values =>
      doing (assignDeeds target value) (assign below target value) fun _ =>
        assignAllDeeds targets values
  | _, _ => fun _ => []

end

def assignEachDeeds (value : Value) : List Target → Machine σ → List Deed
  | [] => fun _ => []
  | target :: rest =>
      doing (assignDeeds below target value) (assign below target value) fun _ =>
        assignEachDeeds value rest

variable (inside : List Statement → Machine σ → List Deed)

/-- The deeds of the body of a loop, and of the rounds after it unless it leaves the loop. -/
def roundDeeds (body : List Statement) (again : Machine σ → List Deed) : Machine σ → List Deed :=
  doing (inside body) (below.execute body) fun flow =>
    match flow with
    | .breaking => fun _ => []
    | .returning _ => fun _ => []
    | _ => again

def whileDeeds (line : Nat) (test : Expr) (body : List Statement) : Nat → Machine σ → List Deed
  | 0 => fun _ => []
  | fuel + 1 =>
      doing (lineDeeds environment line) (reportLine environment line) fun _ =>
        following (holds below test) fun truth =>
          if truth then roundDeeds below inside body (whileDeeds line test body fuel)
          else fun _ => []

/-- The deeds of a loop over a walk; every fetch binds the names of the target. -/
def forDeeds (line : Nat) (target : Target) (body : List Statement) :
    Nat → Walk → Machine σ → List Deed
  | 0, _ => fun _ => []
  | fuel + 1, walk =>
      following (onHeap (Action.next walk)) fun fetched =>
        match fetched with
        | none => fun _ => []
        | some (item, walk) =>
            doing (assignDeeds below target item) (assign below target item) fun _ =>
              roundDeeds below inside body
                (doing (lineDeeds environment line) (reportLine environment line) fun _ =>
                  forDeeds line target body fuel walk)

def defineDeeds (id : Nat) : Machine σ → List Deed :=
  match environment.functions[id]? with
  | none => fun _ => []
  | some definition =>
      following (define environment below id) fun _ _ => [.binds definition.name]

def formDeeds (fuel line : Nat) : Form → Machine σ → List Deed
  | .assign targets expr =>
      following (below.evaluate expr) fun value => assignEachDeeds below value targets
  | .augment (.name name) op expr =>
      following (augment below op expr (.name name)) fun _ _ => [.binds name]
  | .branch test body orelse =>
      following (holds below test) fun truth => if truth then inside body else inside orelse
  | .whileLoop test body => whileDeeds environment below inside line test body fuel
  | .forLoop target iterable body =>
      doing (lineDeeds environment line) (reportLine environment line) fun _ =>
        following (below.evaluate iterable) fun iterable =>
          following (onHeap (Action.walk iterable)) fun walk =>
            forDeeds environment below inside line target body fuel walk
  | .define id => defineDeeds environment below id
  | _ => fun _ => []

def statementDeeds (fuel : Nat) : Statement → Machine σ → List Deed
  | .mk line sameLine form =>
      if isLoop form then formDeeds environment below inside fuel line form
      else if sameLine then
        following (moveToLine line) fun _ => formDeeds environment below inside fuel line form
      else
        doing (lineDeeds environment line) (reportLine environment line) fun _ =>
          formDeeds environment below inside fuel line form

def blockDeeds (fuel : Nat) : List Statement → Machine σ → List Deed
  | [] => fun _ => []
  | statement :: rest =>
      doing (statementDeeds environment below inside fuel statement)
        (executeStatement environment below fuel statement) fun flow =>
          match flow with
          | .normal => blockDeeds fuel rest
          | _ => fun _ => []

end

section

variable {σ : Type} (environment : Environment σ)

def deeds : (fuel : Nat) → List Statement → Machine σ → List Deed
  | 0 => fun _ _ => []
  | fuel + 1 => blockDeeds environment (level environment fuel) (deeds fuel) fuel

/-- The reports of how a frame ends, if its body ends and the hook still wants to know. -/
def closingDeeds : Option (Except RuntimeError Flow × Machine σ) → List Deed
  | some (result, after) =>
      (closingEvents after.frame.isTraced (failed result)).flatMap fun event =>
        reported environment event after
  | none => []

/-- The deeds of the frame of a function that a machine calls: it reports that it is set up, its body
runs, and it reports how it ends. -/
def frameDeeds (fuel : Nat) (definition : Definition) (slots : Array (Option Value))
    (machine : Machine σ) : List Deed :=
  let start := machine.activated environment definition slots
  reported environment .call { machine with frame := .ofCall definition slots } ++
    (deeds environment fuel definition.body start ++
      closingDeeds environment ((level environment fuel).execute definition.body start))

end

/-- The names that a frame lists: those of its locals that have a value. -/
def FrameView.names (view : FrameView) : List String := view.locals.map Prod.fst

def boundBy (deeds : List Deed) : List String :=
  deeds.filterMap fun deed =>
    match deed with
    | .binds name => some name
    | .reports _ _ => none

theorem boundBy_append (deeds later : List Deed) :
    boundBy (deeds ++ later) = boundBy deeds ++ boundBy later := List.filterMap_append

theorem mem_boundBy {deeds : List Deed} {name : String} :
    name ∈ boundBy deeds ↔ Deed.binds name ∈ deeds := by
  simp only [boundBy, List.mem_filterMap]
  constructor
  · rintro ⟨deed, member, same⟩
    cases deed with
    | binds other => cases same; exact member
    | reports event view => cases same
  · intro member
    exact ⟨_, member, rfl⟩

/-- In the frame of a function, where `known` have a value to begin with: every report lists the locals
that are known or were bound before, and only locals are bound. -/
def Accurate (definition : Definition) : (known : List String) → List Deed → Prop
  | _, [] => True
  | known, .reports _ view :: later =>
      view.definition = definition ∧ view.names = definition.locals.filter (· ∈ known) ∧
        Accurate definition known later
  | known, .binds name :: later =>
      name ∈ definition.locals ∧ Accurate definition (known ++ [name]) later

theorem accurate_append {definition : Definition} {known : List String} {deeds later : List Deed} :
    Accurate definition known (deeds ++ later) ↔
      Accurate definition known deeds ∧ Accurate definition (known ++ boundBy deeds) later := by
  induction deeds generalizing known with
  | nil => simp [Accurate, boundBy]
  | cons deed rest inductionHypothesis =>
      cases deed with
      | reports event view =>
          simp only [List.cons_append, Accurate, inductionHypothesis, boundBy,
            List.filterMap_cons_none, and_assoc]
      | binds name =>
          have order : known ++ boundBy (.binds name :: rest) = known ++ [name] ++ boundBy rest := by
            simp [boundBy]
          rw [order]
          simp only [List.cons_append, Accurate, inductionHypothesis, and_assoc]

/-- A log that tells the reports of deeds in order, with the complete logs of other frames between
them. -/
inductive Tells (frame : List Entry → Prop) : List Deed → List Entry → Prop where
  | nothing : Tells frame [] []
  | reports {entry : Entry} {deeds : List Deed} {log : List Entry} :
      Tells frame deeds log → Tells frame (.reports entry.event entry.view :: deeds) (entry :: log)
  | binds {name : String} {deeds : List Deed} {log : List Entry} :
      Tells frame deeds log → Tells frame (.binds name :: deeds) log
  | calls {called log : List Entry} {deeds : List Deed} :
      frame called → Tells frame deeds log → Tells frame deeds (called ++ log)

theorem Tells.append {frame : List Entry → Prop} {deeds others : List Deed} {log later : List Entry}
    (tells : Tells frame deeds log) (after : Tells frame others later) :
    Tells frame (deeds ++ others) (log ++ later) := by
  induction tells with
  | nothing => exact after
  | reports _ inductionHypothesis => exact .reports inductionHypothesis
  | binds _ inductionHypothesis => exact .binds inductionHypothesis
  | calls called _ inductionHypothesis =>
      rw [List.append_assoc]
      exact .calls called inductionHypothesis

theorem Tells.of_view {frame : List Entry → Prop} {view : FrameView} {log : List Entry}
    (views : ∀ entry ∈ log, entry.view = view) :
    Tells frame ((log.map Entry.event).map fun event => .reports event view) log := by
  induction log with
  | nil => exact .nothing
  | cons entry rest inductionHypothesis =>
      obtain ⟨rfl, others⟩ := List.forall_mem_cons.mp views
      exact .reports (inductionHypothesis others)

end Stepwise.Run
