import Stepwise.Proofs.Lockstep

/-!
Observing a run does not change it.

A run under a hook and the same run without one go in lockstep, whatever the hook answers: they end
with the same result, the same printed text, the same heap and the same globals, or neither ends.
-/

namespace Stepwise.Run

open Script

variable {σ τ : Type}

def Unlinked (_ : σ) (_ : τ) : Prop := True

def Environment.withoutHook (environment : Environment σ) : Environment Unit :=
  ⟨environment.namespaceId, environment.functions, environment.callLimit, none⟩

section

variable (environment : Environment σ)

theorem Environment.tell_withoutHook (event : Event) (machine : Machine Unit) :
    machine.tell environment.withoutHook event = (.keep, machine) :=
  Machine.tell_of_no_hook rfl event machine

theorem Environment.reachLine_withoutHook (line : Nat) (machine : Machine Unit) :
    machine.reachLine environment.withoutHook line =
      { machine with frame := { machine.frame with line := line } } := by
  simp only [Machine.reachLine, environment.tell_withoutHook]
  split <;> rfl

theorem Environment.enter_withoutHook (machine : Machine Unit) :
    machine.enter environment.withoutHook = machine := rfl

theorem Environment.leave_withoutHook (failed : Bool) (machine : Machine Unit) :
    machine.leave environment.withoutHook failed = machine := by
  simp only [Machine.leave, environment.tell_withoutHook, ite_self]

end

namespace Coupled

variable {machine : Machine σ} {other : Machine τ}

theorem tellFirst (coupled : Coupled False Unlinked machine other) (environment : Environment σ)
    (event : Event) : Coupled False Unlinked (machine.tell environment event).2 other := by
  rw [Machine.tell_snd]
  exact { coupled with observer := trivial }

theorem setTracedFirst (coupled : Coupled False Unlinked machine other) (traced : Bool) :
    Coupled False Unlinked { machine with frame := machine.frame.setTraced traced } other :=
  { coupled with
    frame := ⟨(machine.frame.code?_setTraced traced).trans coupled.frame.code, coupled.frame.line,
      coupled.frame.scopes⟩
    traced := False.elim }

end Coupled

theorem Environment.coupling_withoutHook (environment : Environment σ) :
    Coupling environment environment.withoutHook False Unlinked where
  namespaceId := rfl
  functions := rfl
  callLimit := rfl
  reachLine := by
    intro line machine other coupled
    rw [environment.reachLine_withoutHook]
    have moved := coupled.withLine line
    have told := moved.tellFirst environment .line
    unfold Machine.reachLine
    split
    · simp only
      split
      · exact told.setTracedFirst false
      · exact told
    · exact moved
  enter := by
    intro machine other coupled
    rw [environment.enter_withoutHook]
    unfold Machine.enter
    split
    · exact (coupled.tellFirst environment .call).setTracedFirst _
    · exact coupled
  leave := by
    intro failed machine other coupled
    rw [environment.leave_withoutHook]
    unfold Machine.leave
    split
    · cases failed with
      | false => exact coupled.tellFirst environment .exit
      | true => exact (coupled.tellFirst environment .exception).tellFirst environment .exit
    · exact coupled

def Machine.visible (machine : Machine σ) : String × Heap × Bindings :=
  (machine.output, machine.heap, machine.globals)

/-- A hook does not change what a call comes to.  At every level both runs end with the same result,
text, heap and globals, or both do not end; so one ends at some level exactly when the other does,
and the outcomes of calls agree on everything but the hook's state. -/
theorem Namespace.call?_transparent (space : Namespace) (callLimit : Nat) (hook : Hook σ)
    (observer : σ) (callable : Callable) (arguments : List Value) :
    let hooked (fuel : Nat) :=
      callable.callee.call (environment space.id space.program callLimit (some hook)) fuel arguments
        (Machine.start space.heap space.globals observer)
    let bare (fuel : Nat) :=
      callable.callee.call
        (environment space.id space.program callLimit (none : Option (Hook Unit))) fuel arguments
        (Machine.start space.heap space.globals ())
    (∀ fuel, (hooked fuel).map (fun ended => (ended.1, ended.2.visible)) =
      (bare fuel).map fun ended => (ended.1, ended.2.visible)) ∧
    ((∃ fuel, (hooked fuel).isSome) ↔ ∃ fuel, (bare fuel).isSome) ∧
    (space.call? callLimit (some hook) observer callable arguments).map
        (fun outcome => (outcome.result, outcome.output, outcome.heap)) =
      (space.call? callLimit (none : Option (Hook Unit)) () callable arguments).map
        fun outcome => (outcome.result, outcome.output, outcome.heap) := by
  intro hooked bare
  have coupling :=
    (environment space.id space.program callLimit (some hook)).coupling_withoutHook
  have same : ∀ fuel, (hooked fuel).map (fun ended => (ended.1, ended.2.visible)) =
      (bare fuel).map fun ended => (ended.1, ended.2.visible) := by
    intro fuel
    refine map_eq_of_rel (coupling.call callable.callee fuel arguments _ _ trivial) ?_
    intro ended other alike
    obtain ⟨result, coupled⟩ := alike
    simp only [result, Machine.visible, coupled.output, coupled.heap, coupled.globals]
  refine ⟨same, ?_, ?_⟩
  · have ends : ∀ fuel, (hooked fuel).isSome = (bare fuel).isSome := by
      intro fuel
      have shapes := congrArg Option.isSome (same fuel)
      rwa [Option.isSome_map, Option.isSome_map] at shapes
    simp only [ends]
  · have unlinked : Unlinked observer () := trivial
    refine map_eq_of_rel (coupling.call? unlinked callable arguments) ?_
    intro outcome other linked
    rw [linked.result, linked.output, linked.heap]

end Stepwise.Run
