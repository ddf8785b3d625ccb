import Mathlib.Data.List.Nodup
import Stepwise.Proofs.Bracketing
import Stepwise.Proofs.Naming.Deeds

/-!
Runs keep to their deeds.

In the frame of a function the locals that have a value are those that had one to begin with and those
that were bound since.  So every report lists just these, and the log of the hook tells the reports of
the frame.  Sequencing keeps to this, expressions add nothing, and only a store adds a name.
-/

namespace Stepwise.Run

open Script Effect

theorem boundLocals_names {names : List String} {slots : List (Option Value)} {given : String → Bool}
    (filled : slots.map Option.isSome = names.map given) :
    (boundLocals names slots).map Prod.fst = names.filter given := by
  induction names generalizing slots with
  | nil => rfl
  | cons name names inductionHypothesis =>
      cases slots with
      | nil => cases filled
      | cons slot slots =>
          obtain ⟨first, rest⟩ := List.cons_eq_cons.mp filled
          rw [List.filter_cons, ← first, ← inductionHypothesis rest]
          cases slot <;> rfl

theorem isSome_set {names known : List String} (distinct : names.Nodup) {name : String}
    {position : Nat} (found : names.idxOf? name = some position) {slots : List (Option Value)}
    (filled : slots.map Option.isSome = names.map fun name => decide (name ∈ known)) (value : Value) :
    (slots.set position (some value)).map Option.isSome =
      names.map fun other => decide (other ∈ known ++ [name]) := by
  obtain ⟨inside, here, -⟩ := List.idxOf?_eq_some_iff.mp found
  rw [List.map_set, filled]
  refine List.ext_getElem (by simp) fun index bound _ => ?_
  simp only [List.length_set, List.length_map] at bound
  -- the names are distinct, so the slot belongs to no other name
  have same : names[index] = name ↔ position = index := by
    rw [← here]
    exact distinct.getElem_inj_iff.trans eq_comm
  rw [List.getElem_set, List.getElem_map, List.getElem_map]
  split
  · rename_i stored
    simp [same.mpr stored]
  · rename_i elsewhere
    have other : names[index] ≠ name := fun equal => elsewhere (same.mp equal)
    simp [other]

/-- The frame of a function in which just the `known` among its locals have a value. -/
def Knows (definition : Definition) (known : List String) (frame : Frame) : Prop :=
  ∃ activation, frame.activation = some activation ∧ activation.definition = definition ∧
    activation.slots.toList.map Option.isSome =
      definition.locals.map fun name => decide (name ∈ known)

section

variable {definition : Definition} {known : List String}

theorem Knows.setTraced {frame : Frame} (knows : Knows definition known frame) (traced : Bool) :
    Knows definition known (frame.setTraced traced) := by
  obtain ⟨activation, running, named, filled⟩ := knows
  refine ⟨{ activation with traced := traced }, ?_, named, filled⟩
  rw [Frame.setTraced, running, Option.map_some]

theorem Knows.accurate {σ : Type} {machine : Machine σ}
    (knows : Knows definition known machine.frame) (environment : Environment σ) (event : Event) :
    Accurate definition known (reported environment event machine) := by
  obtain ⟨activation, running, rfl, filled⟩ := knows
  unfold reported
  rw [running]
  cases environment.hook with
  | none => trivial
  | some hook => exact ⟨rfl, boundLocals_names filled, trivial⟩

theorem reported_of_hook {σ : Type} {environment : Environment σ} {hook : Hook σ}
    (hooked : environment.hook = some hook) {machine : Machine σ} {activation : Activation}
    (running : machine.frame.activation = some activation) (event : Event) :
    reported environment event machine =
      [.reports event ⟨machine.heap, environment.namespaceId, activation.definition,
        activation.slots, machine.frame.line⟩] := by
  unfold reported
  rw [hooked, running]

theorem boundBy_reported {σ : Type} (environment : Environment σ) (event : Event)
    (machine : Machine σ) : boundBy (reported environment event machine) = [] := by
  unfold reported
  split <;> rfl

theorem Knows.store {σ : Type} (distinct : definition.locals.Nodup) {machine : Machine σ}
    (knows : Knows definition known machine.frame) (name : String) (value : Value) :
    (∃ error, store name value machine = some (.error error, machine)) ∨
      ∃ frame, name ∈ definition.locals ∧ Knows definition (known ++ [name]) frame ∧
        store name value machine = some (.ok (), { machine with frame := frame }) := by
  obtain ⟨activation, running, rfl, filled⟩ := knows
  simp only [Effect.store, bind_apply, Effect.frame, running]
  cases found : activation.position? name with
  | none => exact .inl ⟨_, rfl⟩
  | some position =>
      simp only
      split
      · let stored : Activation :=
          { activation with slots := activation.slots.setIfInBounds position (some value) }
        refine .inr ⟨{ machine.frame with activation := some stored }, ?_, ⟨stored, rfl, rfl, ?_⟩, ?_⟩
        · obtain ⟨inside, here, -⟩ := List.idxOf?_eq_some_iff.mp found
          exact here ▸ List.getElem_mem inside
        · rw [Array.toList_setIfInBounds]
          exact isSome_set distinct found filled value
        · rw [modifyFrame, running]
          rfl
      · exact .inl ⟨_, rfl⟩

end

/-- What a call of a script function logs whose frame is set up, in whatever run. -/
def FrameRun (environment : Environment (List Entry)) (log : List Entry) : Prop :=
  ∃ fuel function arguments keywords machine admitted result after,
    environment.admission machine.depth function arguments keywords = .ok admitted ∧
    callFunction environment (level environment fuel) function arguments keywords machine =
      some (result, after) ∧
    after.observer = machine.observer ++ log

def callsAccount (environment : Environment (List Entry)) : Account (List Entry) where
  Allows _ _ before after := ∃ log, after = before ++ log ∧ Tells (FrameRun environment) [] log
  stay _ _ log := ⟨[], (List.append_nil log).symm, .nothing⟩
  trans := by
    rintro _ _ before _ _ ⟨log, rfl, tells⟩ ⟨later, rfl, others⟩
    exact ⟨log ++ later, List.append_assoc .., tells.append others⟩

def anyCourse : Course (List Entry) where
  Leads _ _ _ := True
  stay _ _ := trivial
  trans _ _ := trivial
  withHeap _ _ _ _ := trivial

def calling {environment : Environment (List Entry)} {strategy : Strategy}
    (hooked : environment.hook = some (.logging strategy)) : Discipline environment where
  account := callsAccount environment
  binding := anyCourse
  statement := anyCourse
  binding_of_expression _ := trivial
  statement_of_binding _ := trivial
  store _ _ _ := trivial
  moveToLine _ _ := trivial
  reportLine _ _ := trivial
  callFunction := by
    intro fuel function arguments keywords _ machine result after ended
    obtain ⟨frame, depth, log, told, logged⟩ :=
      callFunction_logs hooked ((bracketing hooked).execute fuel) ended
    refine ⟨frame, depth, log, told, ?_⟩
    cases admission : environment.admission machine.depth function arguments keywords with
    | error error =>
        rw [admission] at logged
        rw [logged.2]
        exact .nothing
    | ok admitted =>
        rw [← List.append_nil log]
        exact .calls ⟨fuel, _, _, _, machine, _, _, _, admission, ended, told⟩ .nothing

/-- A run in the frame of a function that has done some deeds: their names are known at its end, and
its log tells their reports. -/
structure Recounted (environment : Environment (List Entry)) (definition : Definition)
    (known : List String) (deeds : List Deed) (start finish : Machine (List Entry)) : Prop where
  knows : Knows definition (known ++ boundBy deeds) finish.frame
  log : ∃ log, finish.observer = start.observer ++ log ∧ Tells (FrameRun environment) deeds log

theorem Recounted.trans {environment : Environment (List Entry)} {definition : Definition}
    {known : List String} {deeds later : List Deed} {start middle finish : Machine (List Entry)}
    (before : Recounted environment definition known deeds start middle)
    (after : Recounted environment definition (known ++ boundBy deeds) later middle finish) :
    Recounted environment definition known (deeds ++ later) start finish := by
  obtain ⟨log, told, tells⟩ := before.log
  obtain ⟨others, toldLater, tellsLater⟩ := after.log
  refine ⟨?_, log ++ others, ?_, tells.append tellsLater⟩
  · rw [boundBy_append, ← List.append_assoc]
    exact after.knows
  · rw [toldLater, told, List.append_assoc]

theorem Recounted.silent {environment : Environment (List Entry)} {definition : Definition}
    {known : List String} {start finish : Machine (List Entry)} {log : List Entry}
    (knows : Knows definition known finish.frame) (told : finish.observer = start.observer ++ log)
    (tells : Tells (FrameRun environment) [] log) :
    Recounted environment definition known [] start finish := by
  refine ⟨?_, log, told, tells⟩
  rw [boundBy, List.filterMap_nil, List.append_nil]
  exact knows

/-- In the frame of a function, an effect has deeds that are accurate, and its runs have done them.
They are accurate also where the effect does not come to an end. -/
def Recounts {α : Type} (environment : Environment (List Entry)) (definition : Definition)
    (effect : Effect (List Entry) α) (own : Machine (List Entry) → List Deed) : Prop :=
  ∀ machine known, Knows definition known machine.frame →
    Accurate definition known (own machine) ∧
      ∀ result after, effect machine = some (result, after) →
        Recounted environment definition known (own machine) machine after

section

variable {α β : Type} {effect : Effect (List Entry) α} {next : α → Effect (List Entry) β}
  {own : Machine (List Entry) → List Deed} {later : α → Machine (List Entry) → List Deed}

theorem following_bind {γ : Type} (effect : Effect (List Entry) α)
    (next : α → Effect (List Entry) γ) (deeds : γ → Machine (List Entry) → List Deed) :
    following (effect >>= next) deeds = following effect fun value => following (next value) deeds := by
  funext machine
  simp only [following, bind_apply]
  cases effect machine with
  | none => rfl
  | some ended =>
      obtain ⟨result, after⟩ := ended
      cases result <;> rfl

theorem following_nothing (effect : Effect (List Entry) α) :
    following effect (fun _ _ => []) = fun _ => [] := by
  funext machine
  unfold following
  split <;> rfl

namespace Recounts

variable {environment : Environment (List Entry)} {definition : Definition}

theorem doing (first : Recounts environment definition effect own)
    (second : ∀ value, Recounts environment definition (next value) (later value)) :
    Recounts environment definition (effect >>= next) (doing own effect later) := by
  intro machine known knows
  obtain ⟨accurate, ends⟩ := first machine known knows
  -- what comes after the effect has deeds only if the effect ends with a result
  unfold Run.doing following
  cases reached : effect machine with
  | none =>
      rw [List.append_nil]
      refine ⟨accurate, fun result after ended => ?_⟩
      rw [bind_apply, reached] at ended
      cases ended
  | some middle =>
      obtain ⟨firstResult, middle⟩ := middle
      have recounted := ends firstResult middle reached
      cases firstResult with
      | error error =>
          rw [List.append_nil]
          refine ⟨accurate, fun result after ended => ?_⟩
          rw [bind_apply, reached] at ended
          cases ended
          exact recounted
      | ok value =>
          obtain ⟨accurateLater, endsLater⟩ := second value middle _ recounted.knows
          refine ⟨accurate_append.mpr ⟨accurate, accurateLater⟩, fun result after ended => ?_⟩
          rw [bind_apply, reached] at ended
          exact recounted.trans (endsLater result after ended)

theorem following (first : Recounts environment definition effect fun _ => [])
    (second : ∀ value, Recounts environment definition (next value) (later value)) :
    Recounts environment definition (effect >>= next) (following effect later) :=
  first.doing second

theorem bind_silent (first : Recounts environment definition effect own)
    (second : ∀ value, Recounts environment definition (next value) fun _ => []) :
    Recounts environment definition (effect >>= next) own := by
  have both := first.doing second
  unfold Run.doing at both
  simp only [following_nothing, List.append_nil] at both
  exact both

theorem of_expression (follows : (callsAccount environment).expression.Follows effect) :
    Recounts environment definition effect fun _ => [] := by
  intro machine known knows
  refine ⟨trivial, fun result after ended => ?_⟩
  obtain ⟨frame, -, log, told, tells⟩ := follows machine result after ended
  exact .silent (frame ▸ knows) told tells

theorem pure (value : α) : Recounts environment definition (Pure.pure value) fun _ => [] :=
  of_expression ((callsAccount environment).expression.congruence.pure value)

theorem raise (error : RuntimeError) :
    Recounts environment definition (throw error : Effect (List Entry) α) fun _ => [] :=
  of_expression ((callsAccount environment).expression.congruence.raise error)

theorem onHeap (action : Action α) :
    Recounts environment definition (Effect.onHeap action) fun _ => [] := by
  refine of_expression fun machine result after ended => ?_
  rw [onHeap_apply] at ended
  obtain ⟨_, -, ended⟩ := Option.map_eq_some_iff.mp ended
  cases ended
  exact ⟨rfl, rfl, (callsAccount environment).stay _ _ _⟩

theorem store (distinct : definition.locals.Nodup) (name : String) (value : Value) :
    Recounts environment definition (Effect.store name value)
      (Run.following (Effect.store name value) fun _ _ => [.binds name]) := by
  intro machine known knows
  unfold Run.following
  rcases knows.store distinct name value with ⟨error, stored⟩ | ⟨frame, isLocal, knows', stored⟩
  · rw [stored]
    refine ⟨trivial, fun result after ended => ?_⟩
    cases ended
    exact .silent knows (List.append_nil _).symm .nothing
  · rw [stored]
    refine ⟨⟨isLocal, trivial⟩, fun result after ended => ?_⟩
    cases ended
    exact ⟨knows', [], (List.append_nil _).symm, .binds .nothing⟩

theorem moveToLine (line : Nat) :
    Recounts environment definition (Run.moveToLine line) fun _ => [] := by
  intro machine known knows
  refine ⟨trivial, fun result after ended => ?_⟩
  cases ended
  exact .silent knows (List.append_nil _).symm .nothing

end Recounts

end

section

variable {environment : Environment (List Entry)} {strategy : Strategy}
  (hooked : environment.hook = some (.logging strategy)) {definition : Definition}

include hooked

theorem reportLine_recounts (line : Nat) :
    Recounts environment definition (reportLine environment line)
      (lineDeeds environment line) := by
  intro machine known knows
  unfold lineDeeds
  cases traced : machine.frame.isTraced with
  | false =>
      refine ⟨trivial, fun result after ended => ?_⟩
      rw [reportLine_apply, machine.reachLine_of_untraced environment line traced] at ended
      cases ended
      exact .silent knows (List.append_nil _).symm .nothing
  | true =>
      obtain ⟨activation, running, wanted⟩ := Frame.activation_of_isTraced traced
      let moved : Machine (List Entry) :=
        { machine with frame := { machine.frame with line := line } }
      have known' : Knows definition known moved.frame := knows
      refine ⟨known'.accurate environment .line, fun result after ended => ?_⟩
      rw [reportLine_apply, reachLine_logging hooked machine running wanted line] at ended
      cases ended
      refine ⟨?_, _, rfl, ?_⟩
      · rw [if_pos rfl, boundBy_reported, List.append_nil]
        exact known'.setTraced _
      · let entry := moved.entry environment strategy activation .line
        have tells : Tells (FrameRun environment) [.reports entry.event entry.view] [entry] :=
          .reports .nothing
        have running' : moved.frame.activation = some activation := running
        rw [if_pos rfl, reported_of_hook hooked running']
        exact tells

theorem expression_recounts {α : Type} {effect other : Effect (List Entry) α}
    (follows : (calling hooked).correspondence.expression.Relates effect other) :
    Recounts environment definition effect fun _ => [] :=
  .of_expression follows

theorem evaluate_recounts (fuel : Nat) (expr : Expr) :
    Recounts environment definition ((level environment fuel).evaluate expr) fun _ => [] :=
  expression_recounts hooked (((calling hooked).levels fuel).evaluate expr)

theorem holds_recounts (fuel : Nat) (test : Expr) :
    Recounts environment definition (holds (level environment fuel) test) fun _ => [] :=
  expression_recounts hooked (((calling hooked).levels fuel).holds test)

omit hooked in
mutual

theorem assign_recounts (hooked : environment.hook = some (.logging strategy))
    (distinct : definition.locals.Nodup) (fuel : Nat) (target : Target) (value : Value) :
    Recounts environment definition (assign (level environment fuel) target value)
      (assignDeeds (level environment fuel) target value) := by
  cases target with
  | name name => exact .store distinct name value
  | index object index =>
      refine (evaluate_recounts hooked fuel object).bind_silent fun object => ?_
      exact (evaluate_recounts hooked fuel index).bind_silent fun index => .onHeap _
  | unpack targets =>
      unfold assign assignBy assignDeeds
      exact (Recounts.onHeap _).following fun values =>
        assignAll_recounts hooked distinct fuel targets values

theorem assignAll_recounts (hooked : environment.hook = some (.logging strategy))
    (distinct : definition.locals.Nodup) (fuel : Nat) (targets : List Target) (values : List Value) :
    Recounts environment definition
      (assignAllBy (level environment fuel) Effect.store targets values)
      (assignAllDeeds (level environment fuel) targets values) := by
  cases targets with
  | nil => exact .pure ()
  | cons target targets =>
      cases values with
      | nil => exact .pure ()
      | cons value values =>
          unfold assignAllBy assignAllDeeds
          exact (assign_recounts hooked distinct fuel target value).doing fun _ =>
            assignAll_recounts hooked distinct fuel targets values

end

variable (distinct : definition.locals.Nodup) (fuel : Nat)

include distinct

theorem assignEach_recounts (value : Value) (targets : List Target) :
    Recounts environment definition (assignEach (level environment fuel) value targets)
      (assignEachDeeds (level environment fuel) value targets) := by
  induction targets with
  | nil => exact .pure ()
  | cons target rest inductionHypothesis =>
      exact (assign_recounts hooked distinct fuel target value).doing fun _ => inductionHypothesis

theorem augment_recounts (op : BinaryOp) (operand : Expr) (name : String) :
    Recounts environment definition
      (augment (level environment fuel) op operand (.name name))
      (following (augment (level environment fuel) op operand (.name name))
        fun _ _ => [.binds name]) := by
  have loaded := (calling hooked).correspondence.load name
  unfold augment
  simp only [following_bind]
  refine (expression_recounts hooked loaded).following fun current => ?_
  refine (evaluate_recounts hooked fuel operand).following fun operand => ?_
  exact (Recounts.onHeap _).following fun value => .store distinct name value

theorem define_recounts (id : Nat) :
    Recounts environment definition (define environment (level environment fuel) id)
      (defineDeeds environment (level environment fuel) id) := by
  unfold defineDeeds
  cases found : environment.functions[id]? with
  | none =>
      unfold define
      rw [found]
      exact .raise _
  | some function =>
      have defaults := ((calling hooked).levels fuel).evaluateAll
        (function.parameters.filterMap Parameter.default)
      simp only [define, found, following_bind]
      refine (expression_recounts hooked defaults).following fun defaults => ?_
      exact (Recounts.onHeap _).following fun made => .store distinct function.name made

variable {inside : List Statement → Machine (List Entry) → List Deed}
  (settled : ∀ block, Recounts environment definition
    ((level environment fuel).execute block) (inside block))

include settled

omit hooked distinct in
/-- The body of a loop, and then the next round unless the body leaves the loop. -/
theorem round_recounts (body : List Statement) {again : Effect (List Entry) Flow}
    {deeds : Machine (List Entry) → List Deed}
    (next : Recounts environment definition again deeds) :
    Recounts environment definition
      (do
        match ← (level environment fuel).execute body with
        | .breaking => return .normal
        | .returning value => return .returning value
        | _ => again)
      (roundDeeds (level environment fuel) inside body deeds) := by
  refine (settled body).doing fun flow => ?_
  cases flow with
  | normal => exact next
  | continuing => exact next
  | breaking => exact .pure Flow.normal
  | returning value => exact .pure (Flow.returning value)

omit distinct in
theorem whileLoop_recounts (line : Nat) (test : Expr) (body : List Statement) (rounds : Nat) :
    Recounts environment definition
      (whileLoop environment (level environment fuel) line test body rounds)
      (whileDeeds environment (level environment fuel) inside line test body rounds) := by
  induction rounds with
  | zero => exact fun _ _ _ => ⟨trivial, nofun⟩
  | succ rounds inductionHypothesis =>
      refine (reportLine_recounts hooked line).doing fun _ => ?_
      refine (holds_recounts hooked fuel test).following fun truth => ?_
      cases truth with
      | false => exact .pure Flow.normal
      | true => exact round_recounts fuel settled body inductionHypothesis

theorem forLoop_recounts (line : Nat) (target : Target) (body : List Statement) (rounds : Nat)
    (walk : Walk) :
    Recounts environment definition
      (forLoop environment (level environment fuel) line target body rounds walk)
      (forDeeds environment (level environment fuel) inside line target body rounds walk) := by
  induction rounds generalizing walk with
  | zero => exact fun _ _ _ => ⟨trivial, nofun⟩
  | succ rounds inductionHypothesis =>
      refine (Recounts.onHeap _).following fun fetched => ?_
      cases fetched with
      | none => exact .pure Flow.normal
      | some fetched =>
          obtain ⟨item, walk⟩ := fetched
          refine (assign_recounts hooked distinct fuel target item).doing fun _ => ?_
          exact round_recounts fuel settled body
            ((reportLine_recounts hooked line).doing fun _ => inductionHypothesis walk)

theorem executeForm_recounts (rounds line : Nat) (form : Form) :
    Recounts environment definition
      (executeForm environment (level environment fuel) rounds line form)
      (formDeeds environment (level environment fuel) inside rounds line form) := by
  have levels := (calling hooked).levels fuel
  have evaluated : ∀ expr, Recounts environment definition
      ((level environment fuel).evaluate expr) fun _ => [] := evaluate_recounts hooked fuel
  have tested : ∀ test, Recounts environment definition
      (holds (level environment fuel) test) fun _ => [] := holds_recounts hooked fuel
  cases form with
  | expr expr => exact (evaluated expr).bind_silent fun _ => .pure Flow.normal
  | assign targets expr =>
      refine (evaluated expr).following fun value => ?_
      exact (assignEach_recounts hooked distinct fuel value targets).bind_silent fun _ =>
        .pure Flow.normal
  | augment target op expr =>
      cases target with
      | name name =>
          exact (augment_recounts hooked distinct fuel op expr name).bind_silent fun _ =>
            .pure Flow.normal
      | index object index =>
          refine Recounts.bind_silent ?_ fun _ => .pure Flow.normal
          refine (evaluated object).bind_silent fun object => ?_
          refine (evaluated index).bind_silent fun index => ?_
          refine (Recounts.onHeap _).bind_silent fun current => ?_
          refine (evaluated expr).bind_silent fun operand => ?_
          exact (Recounts.onHeap _).bind_silent fun value => .onHeap _
      | unpack targets => exact (Recounts.raise _).bind_silent fun _ => .pure Flow.normal
  | branch test body orelse =>
      refine (tested test).following fun truth => ?_
      cases truth with
      | false => exact settled orelse
      | true => exact settled body
  | whileLoop test body => exact whileLoop_recounts hooked fuel settled line test body rounds
  | forLoop target iterable body =>
      refine (reportLine_recounts hooked line).doing fun _ => ?_
      refine (evaluated iterable).following fun iterable => ?_
      exact (Recounts.onHeap _).following fun walk =>
        forLoop_recounts hooked distinct fuel settled line target body rounds walk
  | breakLoop => exact .pure Flow.breaking
  | continueLoop => exact .pure Flow.continuing
  | pass => exact .pure Flow.normal
  | giveBack expr =>
      exact (expression_recounts hooked (levels.evaluateOption expr)).bind_silent fun value =>
        .pure _
  | raise expr =>
      exact (expression_recounts hooked (levels.errorToRaise expr)).bind_silent fun error =>
        .raise error
  | assert test message =>
      refine (tested test).bind_silent fun truth => ?_
      cases truth with
      | true => exact .pure Flow.normal
      | false =>
          exact (expression_recounts hooked (levels.assertionMessage message)).bind_silent
            fun text => .raise _
  | define id => exact (define_recounts hooked distinct fuel id).bind_silent fun _ => .pure Flow.normal

theorem executeStatement_recounts (rounds : Nat) (statement : Statement) :
    Recounts environment definition
      (executeStatement environment (level environment fuel) rounds statement)
      (statementDeeds environment (level environment fuel) inside rounds statement) := by
  obtain ⟨line, sameLine, form⟩ := statement
  have executed := executeForm_recounts hooked distinct fuel settled rounds line form
  unfold executeStatement statementDeeds
  by_cases loops : isLoop form
  · simp only [loops]
    exact executed
  · simp only [loops]
    cases sameLine with
    | true => exact (Recounts.moveToLine line).following fun _ => executed
    | false => exact (reportLine_recounts hooked line).doing fun _ => executed

theorem executeBlock_recounts (rounds : Nat) (block : List Statement) :
    Recounts environment definition
      (executeBlock environment (level environment fuel) rounds block)
      (blockDeeds environment (level environment fuel) inside rounds block) := by
  induction block with
  | nil => exact .pure Flow.normal
  | cons statement rest inductionHypothesis =>
      refine (executeStatement_recounts hooked distinct fuel settled rounds statement).doing
        fun flow => ?_
      cases flow with
      | normal => exact inductionHypothesis
      | breaking => exact .pure Flow.breaking
      | continuing => exact .pure Flow.continuing
      | returning value => exact .pure (Flow.returning value)

end

theorem execute_recounts {environment : Environment (List Entry)} {strategy : Strategy}
    (hooked : environment.hook = some (.logging strategy)) {definition : Definition}
    (distinct : definition.locals.Nodup) (fuel : Nat) (block : List Statement) :
    Recounts environment definition ((level environment fuel).execute block)
      (deeds environment fuel block) := by
  induction fuel generalizing block with
  | zero => exact fun _ _ _ => ⟨trivial, nofun⟩
  | succ fuel inductionHypothesis =>
      -- the blocks inside of a statement run on the level below
      exact executeBlock_recounts hooked distinct fuel inductionHypothesis fuel block

end Stepwise.Run
