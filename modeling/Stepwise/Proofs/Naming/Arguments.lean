import Mathlib.Data.List.Nodup
import Stepwise.Proofs.Naming.Recounting
import Stepwise.Proofs.WellFormed

/-!
What a frame knows when it is set up.

Arguments by position, arguments by name and defaults fill the slots of the parameters and no others, and
a call that leaves one of them empty is refused.
-/

namespace Stepwise.Script.Definition.WellFormed

variable {definition : Definition} (wellFormed : definition.WellFormed)

include wellFormed

theorem parameters_le : definition.parameters.length ≤ definition.locals.length := by
  rw [wellFormed.locals, List.length_append, List.length_map]
  omega

theorem isParameter {index : Nat} (inside : index < definition.locals.length) :
    definition.locals[index] ∈ definition.parameters.map Parameter.name ↔
      index < definition.parameters.length := by
  have distinct := wellFormed.distinct
  have locals := wellFormed.locals
  generalize ((gatherAll Form.assigned definition.body).removeAll
    (definition.parameters.map Parameter.name)).eraseDups = others at locals
  simp only [locals] at inside ⊢
  rw [locals] at distinct
  have apart := List.disjoint_of_nodup_append distinct
  rw [← List.length_map Parameter.name]
  constructor
  · intro parameter
    by_contra beyond
    rw [List.getElem_append_right (Nat.le_of_not_lt beyond)] at parameter
    exact apart parameter (List.getElem_mem _)
  · intro first
    rw [List.getElem_append_left first]
    exact List.getElem_mem first

end Stepwise.Script.Definition.WellFormed

namespace Stepwise.Run

open Script

def Filled (slots : Array (Option Value)) (index : Nat) : Prop :=
  ∃ value, slots[index]? = some (some value)

theorem Filled.isSome {slots : Array (Option Value)} {index : Nat} (inside : index < slots.size) :
    slots[index].isSome = true ↔ Filled slots index := by
  simp [Filled, Option.isSome_iff_exists, inside]

theorem Filled.set {slots : Array (Option Value)} {index : Nat} (filled : Filled slots index)
    (other : Nat) (value : Value) : Filled (slots.setIfInBounds other (some value)) index := by
  obtain ⟨found, here⟩ := filled
  obtain ⟨inside, -⟩ := Array.getElem?_eq_some_iff.mp here
  rw [Filled, Array.getElem?_setIfInBounds]
  split
  · rename_i same
    exact ⟨value, by rw [if_pos (same ▸ inside)]⟩
  · exact ⟨found, here⟩

structure Unstarted (locals parameters : Nat) (slots : Array (Option Value)) : Prop where
  size : slots.size = locals
  rest : ∀ index, parameters ≤ index → ¬ Filled slots index

section

variable {locals parameters : Nat} {slots : Array (Option Value)}

theorem Unstarted.set (unstarted : Unstarted locals parameters slots) {index : Nat}
    (isParameter : index < parameters) (value : Option Value) :
    Unstarted locals parameters (slots.setIfInBounds index value) := by
  refine ⟨by rw [Array.size_setIfInBounds, unstarted.size], fun other beyond => ?_⟩
  rw [Filled, Array.getElem?_setIfInBounds_ne (by omega)]
  exact unstarted.rest other beyond

theorem Unstarted.positional {arguments : List Value} (few : arguments.length ≤ parameters)
    (room : parameters ≤ locals) :
    Unstarted locals parameters (positionalSlots locals arguments) := by
  refine ⟨?_, fun index beyond => ?_⟩
  · simp only [positionalSlots, List.size_toArray, List.length_append, List.length_map,
      List.length_take, List.length_replicate]
    omega
  · rintro ⟨value, found⟩
    have taken : ((arguments.take locals).map some).length ≤ index := by
      rw [List.length_map, List.length_take]
      omega
    rw [positionalSlots, List.getElem?_toArray, List.getElem?_append_right taken] at found
    cases List.eq_of_mem_replicate (List.mem_of_getElem? found)

theorem Unstarted.setKeyword {definition : Definition} {keyword : String × Value}
    {after : Array (Option Value)}
    (unstarted : Unstarted locals definition.parameters.length slots)
    (filled : setKeyword definition slots keyword = .ok after) :
    Unstarted locals definition.parameters.length after := by
  unfold Run.setKeyword at filled
  split at filled
  · cases filled
  · rename_i found
    obtain ⟨isParameter, -⟩ := List.findIdx?_eq_some_iff_getElem.mp found
    split at filled <;> cases filled
    exact unstarted.set isParameter _

theorem Unstarted.setKeywords {definition : Definition} {keywords : Keywords}
    {after : Array (Option Value)}
    (unstarted : Unstarted locals definition.parameters.length slots)
    (filled : keywords.foldlM (Run.setKeyword definition) slots = .ok after) :
    Unstarted locals definition.parameters.length after := by
  induction keywords generalizing slots with
  | nil =>
      cases filled
      exact unstarted
  | cons keyword rest inductionHypothesis =>
      rw [List.foldlM_cons] at filled
      cases reached : Run.setKeyword definition slots keyword with
      | error problem =>
          rw [reached] at filled
          cases filled
      | ok middle =>
          rw [reached] at filled
          exact inductionHypothesis (unstarted.setKeyword reached) filled

end

theorem fillDefaults_succ (required : Nat) (defaults : List Value) (parameters : Nat)
    (slots : Array (Option Value)) :
    fillDefaults required defaults (parameters + 1) slots =
      let before := fillDefaults required defaults parameters slots
      match before[parameters]? with
      | some none =>
          if required ≤ parameters then
            before.setIfInBounds parameters defaults[parameters - required]?
          else before
      | _ => before := by
  unfold fillDefaults
  rw [List.range_succ, List.foldl_append]
  rfl

theorem Unstarted.fillDefaults {locals all : Nat} {slots : Array (Option Value)}
    (unstarted : Unstarted locals all slots) (required : Nat) (defaults : List Value)
    {parameters : Nat} (within : parameters ≤ all) :
    Unstarted locals all (fillDefaults required defaults parameters slots) := by
  induction parameters with
  | zero => exact unstarted
  | succ parameters inductionHypothesis =>
      have before := inductionHypothesis (by omega)
      rw [fillDefaults_succ]
      simp only
      split
      · split
        · exact before.set (by omega) _
        · exact before
      · exact before

theorem Filled.fillDefaults {slots : Array (Option Value)} {index : Nat}
    (filled : Filled slots index) (required : Nat) (defaults : List Value) (parameters : Nat) :
    Filled (fillDefaults required defaults parameters slots) index := by
  induction parameters with
  | zero => exact filled
  | succ parameters inductionHypothesis =>
      rw [fillDefaults_succ]
      simp only
      split
      · rename_i empty
        have other : parameters ≠ index := by
          rintro rfl
          obtain ⟨value, here⟩ := inductionHypothesis
          rw [here] at empty
          cases empty
        split
        · rw [Filled, Array.getElem?_setIfInBounds_ne other]
          exact inductionHypothesis
        · exact inductionHypothesis
      · exact inductionHypothesis

theorem Unstarted.filled {locals all : Nat} {slots : Array (Option Value)}
    (unstarted : Unstarted locals all slots) (room : all ≤ locals) {required : Nat}
    {defaults : List Value} (given : ∀ index < required, Filled slots index)
    (enough : all ≤ required + defaults.length) {parameters : Nat} (within : parameters ≤ all) :
    ∀ index < parameters, Filled (Run.fillDefaults required defaults parameters slots) index := by
  induction parameters with
  | zero => exact nofun
  | succ parameters inductionHypothesis =>
      have before := inductionHypothesis (by omega)
      have size := (unstarted.fillDefaults required defaults (Nat.le_of_succ_le within)).size
      have inside : parameters < (Run.fillDefaults required defaults parameters slots).size := by
        omega
      intro index earlier
      rw [fillDefaults_succ]
      simp only
      split
      · rename_i empty
        -- the slot is empty, so it is not that of a required parameter
        have optional : required ≤ parameters := by
          by_contra needed
          obtain ⟨value, here⟩ :=
            (given parameters (by omega)).fillDefaults required defaults parameters
          rw [here] at empty
          cases empty
        have default : parameters - required < defaults.length := by omega
        rw [if_pos optional, List.getElem?_eq_getElem default]
        rcases Nat.lt_succ_iff_lt_or_eq.mp earlier with earlier | rfl
        · exact (before index earlier).set _ _
        · exact ⟨_, by rw [Array.getElem?_setIfInBounds_self_of_lt inside]⟩
      · rename_i full
        rcases Nat.lt_succ_iff_lt_or_eq.mp earlier with earlier | rfl
        · exact before index earlier
        · cases here : (Run.fillDefaults required defaults index slots)[index] with
          | none => exact absurd (by rw [Array.getElem?_eq_getElem inside, here]) full
          | some value => exact ⟨value, by rw [Array.getElem?_eq_getElem inside, here]⟩

theorem missingNames_nil {definition : Definition} {required : Nat} {slots : Array (Option Value)}
    (nothing : missingNames definition required slots = [])
    (few : required ≤ definition.parameters.length) : ∀ index < required, Filled slots index := by
  intro index inside
  have isParameter : index < (definition.parameters.take required).length := by
    rw [List.length_take]
    omega
  have member : ((definition.parameters.take required)[index], index) ∈
      (definition.parameters.take required).zipIdx :=
    List.mem_zipIdx_iff_getElem?.mpr (List.getElem?_eq_getElem isParameter)
  have found := List.filter_eq_nil_iff.mp (List.map_eq_nil_iff.mp nothing) _ member
  simp only at found
  split at found
  · rename_i value here
    exact ⟨value, here⟩
  · simp at found

/-- A call that is not refused gives a value to every parameter, and to nothing else. -/
theorem bindArguments_filled {definition : Definition}
    (room : definition.parameters.length ≤ definition.locals.length)
    {defaults arguments : List Value} {keywords : Keywords} {slots : Array (Option Value)}
    (bound : bindArguments definition defaults arguments keywords = .ok slots) :
    Unstarted definition.locals.length definition.parameters.length slots ∧
      ∀ index < definition.parameters.length, Filled slots index := by
  unfold bindArguments at bound
  simp only at bound
  split at bound
  · cases bound
  · rename_i few
    cases given : keywords.foldlM (setKeyword definition)
        (positionalSlots definition.locals.length arguments) with
    | error problem => rw [given] at bound; cases bound
    | ok taken =>
        rw [given] at bound
        have unstarted := (Unstarted.positional (Nat.le_of_not_lt few) room).setKeywords given
        simp only [bind, Except.bind] at bound
        split at bound
        · rename_i nothing
          cases bound
          have required := missingNames_nil nothing (Nat.sub_le _ _)
          exact ⟨unstarted.fillDefaults _ _ (Nat.le_refl _),
            unstarted.filled room required (by omega) (Nat.le_refl _)⟩
        · cases bound

theorem Knows.of_bindArguments {definition : Definition} (wellFormed : definition.WellFormed)
    {defaults arguments : List Value} {keywords : Keywords} {slots : Array (Option Value)}
    (bound : bindArguments definition defaults arguments keywords = .ok slots) :
    Knows definition (definition.parameters.map Parameter.name) (.ofCall definition slots) := by
  obtain ⟨unstarted, filled⟩ := bindArguments_filled wellFormed.parameters_le bound
  have size := unstarted.size
  refine ⟨_, rfl, rfl, List.ext_getElem (by simp [size]) fun index inside _ => ?_⟩
  simp only [List.length_map, Array.length_toList] at inside
  rw [List.getElem_map, List.getElem_map, Array.getElem_toList, Bool.eq_iff_iff, Filled.isSome,
    decide_eq_true_iff, wellFormed.isParameter (size ▸ inside)]
  constructor
  · intro here
    by_contra beyond
    exact unstarted.rest index (Nat.le_of_not_lt beyond) here
  · exact filled index

end Stepwise.Run
