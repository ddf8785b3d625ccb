import Stepwise.Proofs.Bracketing

/-!
Runs under a higher limit on nested calls.

Nothing but the call of a script function looks at the limit, and nothing catches the error that it
raises.  So a run that ends in another way never met the limit, and ends in the same way under every
higher one.
-/

namespace Stepwise.Run

open Script Effect

variable {σ α β : Type}

/-- Whether a run ended because too many calls were nested. -/
def ExceedsLimit (result : Except RuntimeError α) : Prop :=
  ∃ limit, result = .error (.recursionLimit limit)

theorem ExceedsLimit.map {result : Except RuntimeError α} (exceeds : ExceedsLimit result)
    (change : α → β) : ExceedsLimit (result.map change) := by
  obtain ⟨limit, rfl⟩ := exceeds
  exact ⟨limit, rfl⟩

def Extends (effect other : Effect σ α) : Prop :=
  ∀ machine result after, effect machine = some (result, after) →
    ExceedsLimit result ∨ other machine = some (result, after)

theorem Extends.refl (effect : Effect σ α) : Extends effect effect :=
  fun _ _ _ ended => .inr ended

theorem Extends.bind {effect other : Effect σ α} {next otherNext : α → Effect σ β}
    (first : Extends effect other) (rest : ∀ value, Extends (next value) (otherNext value)) :
    Extends (effect >>= next) (other >>= otherNext) := by
  intro machine result after ended
  rw [bind_apply]
  rcases bind_ended ended with ⟨error, raised, rfl⟩ | ⟨value, middle, reached, ended⟩
  · rcases first machine _ after raised with ⟨limit, exceeds⟩ | raised
    · cases exceeds
      exact .inl ⟨limit, rfl⟩
    · rw [raised]
      exact .inr rfl
  · rcases first machine _ middle reached with ⟨limit, exceeds⟩ | reached
    · cases exceeds
    · rw [reached]
      exact rest value middle result after ended

theorem Extends.inScope {effect other : Effect σ α} (extended : Extends effect other) :
    Extends (Effect.inScope effect) (Effect.inScope other) := by
  intro machine result after ended
  rw [inScope_apply] at ended ⊢
  obtain ⟨⟨result, inner⟩, ran, ended⟩ := Option.map_eq_some_iff.mp ended
  cases ended
  rcases extended _ result inner ran with exceeds | ran
  · exact .inl exceeds
  · rw [ran]
    exact .inr rfl

def extending : Congruence σ σ where
  Relates := Extends
  pure value := Extends.refl (Pure.pure value)
  bind := Extends.bind
  raise error := Extends.refl (throw error)
  exhausted := Extends.refl Effect.exhausted
  onHeap {_ action} _ := Extends.refl (Effect.onHeap action)

def Environment.withLimit (environment : Environment σ) (limit : Nat) : Environment σ :=
  { environment with callLimit := limit }

theorem Environment.withLimit_namespaceId (environment : Environment σ) (limit : Nat) :
    environment.namespaceId = (environment.withLimit limit).namespaceId := rfl

theorem Environment.withLimit_functions (environment : Environment σ) (limit : Nat) :
    environment.functions = (environment.withLimit limit).functions := rfl

section

variable {environment : Environment σ} {limit : Nat} (higher : environment.callLimit ≤ limit)
  (function : FunctionObject) (arguments : List Value) (keywords : Keywords)

include higher

theorem Environment.admission_withLimit (depth : Nat) :
    environment.admission depth function arguments keywords =
        .error (.recursionLimit environment.callLimit) ∨
      (environment.withLimit limit).admission depth function arguments keywords =
        environment.admission depth function arguments keywords := by
  unfold Environment.admission Environment.withLimit
  by_cases foreign : function.home ≠ environment.namespaceId
  · rw [if_pos foreign, if_pos foreign]
    exact .inr rfl
  · simp only [foreign, if_false]
    cases environment.functions[function.id]? with
    | none => exact .inr rfl
    | some definition =>
        by_cases full : environment.callLimit ≤ depth
        · simp only [full, if_true, true_or]
        · have room : ¬ limit ≤ depth := fun deep => full (Nat.le_trans higher deep)
          simp only [full, room, if_false, or_true]

theorem callFunction_extends {below otherBelow : Level σ}
    (extended : ∀ block, Extends (below.execute block) (otherBelow.execute block)) :
    Extends (callFunction environment below function arguments keywords)
      (callFunction (environment.withLimit limit) otherBelow function arguments keywords) := by
  intro machine result after ended
  rcases Environment.admission_withLimit higher function arguments keywords machine.depth
    with refused | same
  · rw [callFunction_apply, refused] at ended
    cases ended
    exact .inl ⟨_, rfl⟩
  · rw [callFunction_apply, same]
    rcases callFunction_ended ended with
      ⟨error, refused, rfl, rfl⟩ | ⟨definition, slots, flow, inner, admitted, ran, rfl, rfl⟩
    · rw [refused]
      exact .inr rfl
    · rw [admitted]
      rcases extended definition.body _ flow inner ran with exceeds | ran
      · exact .inl (exceeds.map Flow.value)
      · simp only [activate_apply]
        -- Setting up a frame and leaving it look at the hook, and not at the limit.
        have same : machine.activated (environment.withLimit limit) definition slots =
          machine.activated environment definition slots := rfl
        rw [same, ran]
        exact .inr rfl

/-- Code that stays within its limit does under a higher one what it does under its own. -/
def raising : Correspondence environment (environment.withLimit limit) where
  expression := extending
  comprehension := extending
  binding := extending
  statement := extending
  namespaceId := environment.withLimit_namespaceId limit
  functions := environment.withLimit_functions limit
  comprehension_of_expression extended := extended
  binding_of_expression extended := extended
  statement_of_binding extended := extended
  binding? name := Extends.refl (Effect.binding? name)
  load name := Extends.refl (Effect.load name)
  write text := Extends.refl (Effect.write text)
  bindVariable name value := Extends.refl (Effect.bindVariable name value)
  inScope := Extends.inScope
  store name value := Extends.refl (Effect.store name value)
  moveToLine line := Extends.refl (Run.moveToLine line)
  reportLine line := Extends.refl (Run.reportLine environment line)
  callFunction _ function arguments keywords extended :=
    callFunction_extends higher function arguments keywords extended

end

/-- A call that ends without exceeding its limit ends under every higher limit with the same result,
hook state, output and heap. -/
theorem Namespace.call?_of_higher_limit (space : Namespace) {callLimit higher : Nat}
    (raised : callLimit ≤ higher) (hook : Option (Hook σ)) (observer : σ) (callable : Callable)
    (arguments : List Value) {outcome : Outcome σ}
    (ended : space.call? callLimit hook observer callable arguments = some outcome)
    (within : ¬ ExceedsLimit outcome.result) :
    space.call? higher hook observer callable arguments = some outcome := by
  rw [Namespace.call?_eq_map] at ended
  obtain ⟨⟨result, after⟩, ran, rfl⟩ := Option.map_eq_some_iff.mp ended
  have bound : (environment space.id space.program callLimit hook).callLimit ≤ higher := raised
  have extended := (raising bound).call callable.callee ampleFuel arguments
  rcases extended _ result after ran with exceeds | ran
  · exact absurd exceeds within
  · rw [Namespace.call?_eq_map]
    exact Option.map_eq_some_iff.mpr ⟨_, ran, rfl⟩

/-- `outer` calls `inner`, so a limit of two is enough, and what is logged under it is logged under a
limit of five. -/
theorem Namespace.call?_relay_of_higher_limit :
    ∃ outcome,
      relay.call? 2 (some (.logging .skipFirst)) [] ⟨"outer", .function ⟨0, 1, "outer", []⟩⟩
        [.bool true] = some outcome ∧
      ¬ ExceedsLimit outcome.result ∧
      relay.call? 5 (some (.logging .skipFirst)) [] ⟨"outer", .function ⟨0, 1, "outer", []⟩⟩
        [.bool true] = some outcome := by
  have returned : (relay.call? 2 (some (.logging .skipFirst)) []
      ⟨"outer", .function ⟨0, 1, "outer", []⟩⟩ [.bool true]).map
        (fun outcome => failed outcome.result) = some false := by
    decide +kernel
  obtain ⟨outcome, ended, returned⟩ := Option.map_eq_some_iff.mp returned
  have within : ¬ ExceedsLimit outcome.result := by
    rintro ⟨limit, exceeds⟩
    rw [exceeds] at returned
    cases returned
  exact ⟨outcome, ended, within,
    call?_of_higher_limit relay (by decide) _ _ _ _ ended within⟩

end Stepwise.Run
