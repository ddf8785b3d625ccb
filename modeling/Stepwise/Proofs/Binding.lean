import Mathlib.Data.List.Forall2
import Mathlib.Logic.Function.Basic
import Stepwise.Proofs.Naming.Arguments

/-!
How a call of a function binds its arguments.

A parameter is bound to the argument at its position, else to the one of its name, else to its own
default.  The defaults of a function object are dealt out to the parameters that declare one, and the
parameters that do not come first, so that each finds its own from the end.
-/

namespace Stepwise.Run

open Script Effect

variable {σ : Type} {environment : Environment σ} {below : Level σ} {definition : Definition}
  {defaults : List Value}

def ownDefaults : List Parameter → List Value → List (Option Value)
  | [], _ => []
  | ⟨_, none⟩ :: rest, defaults => none :: ownDefaults rest defaults
  | ⟨_, some _⟩ :: rest, defaults => defaults.head? :: ownDefaults rest defaults.tail

def ownDefault? (definition : Definition) (defaults : List Value) (index : Nat) : Option Value :=
  (ownDefaults definition.parameters defaults)[index]?.join

def HasValue (below : Level σ) (expr : Expr) (value : Value) : Prop :=
  ∃ start finish, below.evaluate expr start = some (.ok value, finish)

/-- Whether an object is one that the statement of a function makes; the statement evaluates the
defaults. -/
def MadeFrom (environment : Environment σ) (below : Level σ) (definition : Definition)
    (object : FunctionObject) : Prop :=
  ∃ (id : Nat) (machine after : Machine σ), environment.functions[id]? = some definition ∧
    define environment below id machine = some (.ok (), after) ∧
      after.heap.functions.back? = some object

theorem evaluateAll_hasValue {exprs : List Expr} {values : List Value} {machine after : Machine σ}
    (ended : evaluateAll below exprs machine = some (.ok values, after)) :
    List.Forall₂ (HasValue below) exprs values := by
  induction exprs generalizing machine values with
  | nil =>
      cases ended
      exact .nil
  | cons expr rest inductionHypothesis =>
      rw [evaluateAll] at ended
      obtain ⟨value, middle, evaluated, ended⟩ := bind_ok_iff.mp ended
      obtain ⟨others, last, evaluatedToo, ended⟩ := bind_ok_iff.mp ended
      cases ended
      exact .cons ⟨machine, middle, evaluated⟩ (inductionHypothesis evaluatedToo)

theorem MadeFrom.defaults_hasValue {object : FunctionObject}
    (made : MadeFrom environment below definition object) :
    List.Forall₂ (HasValue below) (definition.parameters.filterMap Parameter.default)
      object.defaults := by
  obtain ⟨id, machine, after, found, ended, last⟩ := made
  unfold define at ended
  rw [found] at ended
  obtain ⟨defaults, middle, evaluated, ended⟩ := bind_ok_iff.mp ended
  rw [bind_apply, onHeap_apply] at ended
  obtain ⟨_, globals, frame, -, -, stored⟩ := store_apply definition.name
    (middle.heap.newFunction ⟨environment.namespaceId, id, definition.name, defaults⟩).1
    { middle with
      heap := (middle.heap.newFunction ⟨environment.namespaceId, id, definition.name, defaults⟩).2 }
  cases ended.symm.trans stored
  simp only [Heap.newFunction, Array.back?_push, Option.some.injEq] at last
  rw [← last]
  exact evaluateAll_hasValue evaluated

theorem ownDefaults_hasValue {parameters : List Parameter}
    (values : List.Forall₂ (HasValue below) (parameters.filterMap Parameter.default) defaults)
    {index : Nat} {parameter : Parameter} (found : parameters[index]? = some parameter)
    {expr : Expr} (declared : parameter.default = some expr) :
    ∃ value, (ownDefaults parameters defaults)[index]? = some (some value) ∧
      HasValue below expr value := by
  induction parameters generalizing index defaults with
  | nil => cases found
  | cons first rest inductionHypothesis =>
      obtain ⟨name, default⟩ := first
      cases default with
      | none =>
          cases index with
          | zero =>
              cases found
              cases declared
          | succ index => exact inductionHypothesis values found
      | some own =>
          obtain ⟨value, others, has, behind, rfl⟩ := List.forall₂_cons_left_iff.mp values
          cases index with
          | zero =>
              cases found
              cases declared
              exact ⟨value, rfl, has⟩
          | succ index => exact inductionHypothesis behind found

/-- Behind the parameters without defaults each parameter finds its own by its place. -/
theorem ownDefaults_getElem? {parameters : List Parameter}
    (listed : parameters.Pairwise fun earlier later =>
      earlier.default.isSome → later.default.isSome)
    (count : defaults.length = (parameters.filterMap Parameter.default).length) {index : Nat}
    (inside : index < parameters.length) :
    (ownDefaults parameters defaults)[index]? =
      some (if parameters.length - defaults.length ≤ index then
        defaults[index - (parameters.length - defaults.length)]? else none) := by
  induction parameters generalizing index defaults with
  | nil => cases inside
  | cons first rest inductionHypothesis =>
      obtain ⟨declared, others⟩ := List.pairwise_cons.mp listed
      obtain ⟨name, default⟩ := first
      cases default with
      | none =>
          have few : defaults.length ≤ rest.length := by
            rw [count]
            exact List.length_filterMap_le Parameter.default rest
          have required : (⟨name, none⟩ :: rest : List Parameter).length - defaults.length =
              rest.length - defaults.length + 1 := by
            rw [List.length_cons]
            omega
          rw [required]
          cases index with
          | zero => rfl
          | succ index =>
              have behind := inductionHypothesis others count (Nat.lt_of_succ_lt_succ inside)
              simp only [Nat.succ_le_succ_iff, Nat.reduceSubDiff]
              exact behind
      | some own =>
          have all : (rest.filterMap Parameter.default).length = rest.length :=
            List.filterMap_length_eq_length.mpr fun later member => declared later member rfl
          obtain ⟨value, others', rfl⟩ : ∃ value others', defaults = value :: others' :=
            List.exists_cons_of_length_eq_add_one count
          have countRest := Nat.succ.inj count
          rw [List.length_cons, List.length_cons, countRest, all, Nat.sub_self,
            if_pos (Nat.zero_le index)]
          cases index with
          | zero => rfl
          | succ index =>
              have behind := inductionHypothesis others countRest (Nat.lt_of_succ_lt_succ inside)
              rw [countRest, all, Nat.sub_self, if_pos (Nat.zero_le index)] at behind
              exact behind

theorem default_eq_none_iff {parameters : List Parameter}
    (listed : parameters.Pairwise fun earlier later =>
      earlier.default.isSome → later.default.isSome)
    (values : List.Forall₂ (HasValue below) (parameters.filterMap Parameter.default) defaults)
    {index : Nat} {parameter : Parameter} (found : parameters[index]? = some parameter) :
    parameter.default = none ↔ index < parameters.length - defaults.length := by
  obtain ⟨inside, here⟩ := List.getElem?_eq_some_iff.mp found
  constructor
  · intro undeclared
    -- no parameter up to this one declares a default
    have none : (parameters.take (index + 1)).filterMap Parameter.default = [] := by
      refine List.filterMap_eq_nil_iff.mpr fun earlier member => ?_
      obtain ⟨place, before, rfl⟩ := List.mem_iff_getElem.mp member
      rw [List.length_take] at before
      rw [List.getElem_take]
      by_contra declares
      rcases Nat.lt_or_eq_of_le (show place ≤ index by omega) with less | rfl
      · have later := List.pairwise_iff_getElem.mp listed place index (by omega) inside less
          (Option.isSome_iff_ne_none.mpr declares)
        rw [here, undeclared] at later
        cases later
      · exact declares (here ▸ undeclared)
    have behind : defaults.length ≤ (parameters.drop (index + 1)).length := by
      rw [← values.length_eq, ← List.take_append_drop (index + 1) parameters,
        List.filterMap_append, none, List.nil_append]
      simpa using List.length_filterMap_le Parameter.default (parameters.drop (index + 1))
    rw [List.length_drop] at behind
    omega
  · intro required
    by_contra declares
    obtain ⟨expr, declared⟩ := Option.ne_none_iff_exists'.mp declares
    obtain ⟨value, dealt, -⟩ := ownDefaults_hasValue values found declared
    rw [ownDefaults_getElem? listed values.length_eq.symm inside, if_neg (by omega)] at dealt
    cases dealt

structure Holds (locals : Nat) (given : Nat → Option Value) (slots : Array (Option Value)) :
    Prop where
  size : slots.size = locals
  slot : ∀ index < locals, slots[index]? = some (given index)

variable {locals : Nat} {given : Nat → Option Value} {slots : Array (Option Value)}

theorem Holds.congr (holds : Holds locals given slots) {other : Nat → Option Value}
    (same : ∀ index < locals, given index = other index) : Holds locals other slots :=
  ⟨holds.size, fun index inside => same index inside ▸ holds.slot index inside⟩

theorem Holds.set (holds : Holds locals given slots) (index : Nat) (value : Option Value) :
    Holds locals (Function.update given index value) (slots.setIfInBounds index value) := by
  refine ⟨by rw [Array.size_setIfInBounds, holds.size], fun other inside => ?_⟩
  rw [Array.getElem?_setIfInBounds]
  by_cases same : index = other
  · subst same
    rw [if_pos rfl, if_pos (by rw [holds.size]; exact inside), Function.update_self]
  · rw [if_neg same, Function.update_of_ne (Ne.symm same), holds.slot other inside]

theorem Holds.positional {arguments : List Value} (few : arguments.length ≤ locals) :
    Holds locals (fun index => arguments[index]?) (positionalSlots locals arguments) := by
  refine ⟨?_, fun index inside => ?_⟩
  · simp only [positionalSlots, List.size_toArray, List.length_append, List.length_map,
      List.length_take, List.length_replicate]
    omega
  · rw [positionalSlots, List.getElem?_toArray, List.take_of_length_le few]
    by_cases taken : index < arguments.length
    · rw [List.getElem?_append_left (by rwa [List.length_map]), List.getElem?_map,
        List.getElem?_eq_getElem taken]
      rfl
    · rw [List.getElem?_append_right (by rw [List.length_map]; omega), List.length_map,
        List.getElem?_eq_none (Nat.le_of_not_lt taken), List.getElem?_replicate_of_lt (by omega)]

def filledSlot (required : Nat) (defaults : List Value) (parameters : Nat)
    (given : Nat → Option Value) (index : Nat) : Option Value :=
  if index < parameters ∧ required ≤ index then (given index).or defaults[index - required]?
  else given index

theorem Holds.fillDefaults (holds : Holds locals given slots) (required : Nat)
    (defaults : List Value) {parameters : Nat} (room : parameters ≤ locals) :
    Holds locals (filledSlot required defaults parameters given)
      (fillDefaults required defaults parameters slots) := by
  induction parameters with
  | zero => exact holds.congr fun index _ => by rw [filledSlot, if_neg (by omega)]
  | succ parameters inductionHypothesis =>
      have before := inductionHypothesis (by omega)
      have here := before.slot parameters (by omega)
      rw [filledSlot, if_neg (by omega)] at here
      -- another slot is left as it was
      have others {index : Nat} (other : index ≠ parameters) :
          filledSlot required defaults parameters given index =
            filledSlot required defaults (parameters + 1) given index := by
        rw [filledSlot, filledSlot]
        refine if_congr (and_congr_left' ?_) rfl rfl
        omega
      rw [fillDefaults_succ]
      simp only [here]
      cases free : given parameters with
      | some value =>
          refine before.congr fun index _ => ?_
          by_cases other : index = parameters
          · subst other
            rw [filledSlot, filledSlot, free, Option.some_or, ite_self, ite_self]
          · exact others other
      | none =>
          dsimp only
          split
          next optional =>
            refine (before.set parameters _).congr fun index _ => ?_
            by_cases other : index = parameters
            · subst other
              rw [Function.update_self, filledSlot, if_pos ⟨Nat.lt_succ_self index, optional⟩, free,
                Option.none_or]
            · rw [Function.update_of_ne other, others other]
          next needed =>
            refine before.congr fun index _ => ?_
            by_cases other : index = parameters
            · subst other
              rw [filledSlot, filledSlot, if_neg (by omega), if_neg (by omega)]
            · exact others other

def argument? (definition : Definition) (arguments : List Value) (keywords : Keywords)
    (index : Nat) : Option Value :=
  arguments[index]?.or
    (definition.parameters[index]?.bind fun parameter => keywords.lookup parameter.name)

def Awaits (definition : Definition) (arguments : List Value) (name : String) : Prop :=
  ∃ index parameter, definition.parameters[index]? = some parameter ∧ parameter.name = name ∧
    arguments.length ≤ index

section

variable (distinct : (definition.parameters.map Parameter.name).Nodup)
  (room : definition.parameters.length ≤ locals) {arguments : List Value} {done : Keywords}

include distinct

theorem index_eq_of_name {index place : Nat} {parameter other : Parameter}
    (found : definition.parameters[index]? = some parameter)
    (foundToo : definition.parameters[place]? = some other) (same : parameter.name = other.name) :
    index = place := by
  obtain ⟨inside, rfl⟩ := List.getElem?_eq_some_iff.mp found
  obtain ⟨insideToo, rfl⟩ := List.getElem?_eq_some_iff.mp foundToo
  have listed : index < (definition.parameters.map Parameter.name).length := by
    rwa [List.length_map]
  have listedToo : place < (definition.parameters.map Parameter.name).length := by
    rwa [List.length_map]
  have named : (definition.parameters.map Parameter.name)[index] =
      (definition.parameters.map Parameter.name)[place] := by
    rw [List.getElem_map, List.getElem_map, same]
  exact distinct.getElem_inj_iff.mp named

include room

theorem Holds.setKeyword (holds : Holds locals (argument? definition arguments done) slots)
    {keyword : String × Value} {after : Array (Option Value)}
    (set : setKeyword definition slots keyword = .ok after) :
    Awaits definition arguments keyword.1 ∧ done.lookup keyword.1 = none ∧
      Holds locals (argument? definition arguments (done ++ [keyword])) after := by
  unfold Run.setKeyword at set
  split at set
  · cases set
  rename_i index found
  obtain ⟨inside, named, -⟩ := List.findIdx?_eq_some_iff_getElem.mp found
  have name := beq_iff_eq.mp named
  have here := List.getElem?_eq_getElem inside
  rw [holds.slot index (by omega)] at set
  split at set
  · cases set
  rename_i free
  cases set
  have empty : argument? definition arguments done index = none := by
    cases given : argument? definition arguments done index with
    | none => rfl
    | some value => exact absurd (by rw [given]) (free value)
  rw [argument?, here, Option.or_eq_none_iff, Option.bind_some, name] at empty
  refine ⟨⟨index, _, here, name, List.getElem?_eq_none_iff.mp empty.1⟩, empty.2, ?_⟩
  refine (holds.set index (some keyword.2)).congr fun other _ => ?_
  by_cases same : other = index
  · subst same
    rw [Function.update_self, argument?, here, empty.1, Option.none_or, Option.bind_some, name,
      List.lookup_append, empty.2, Option.none_or, List.lookup_cons_self]
  · rw [Function.update_of_ne same, argument?, argument?]
    cases foundToo : definition.parameters[other]? with
    | none => rfl
    | some parameter =>
        have differ : (parameter.name == keyword.1) = false := by
          refine beq_eq_false_iff_ne.mpr fun sameName => same ?_
          exact index_eq_of_name distinct foundToo here (sameName.trans name.symm)
        rw [Option.bind_some, Option.bind_some, List.lookup_append, List.lookup_cons, differ,
          List.lookup_nil, Option.or_none]

theorem Holds.exists_setKeyword (holds : Holds locals (argument? definition arguments done) slots)
    {keyword : String × Value} (awaits : Awaits definition arguments keyword.1)
    (fresh : done.lookup keyword.1 = none) :
    ∃ after, Run.setKeyword definition slots keyword = .ok after := by
  obtain ⟨index, parameter, found, named, behind⟩ := awaits
  unfold Run.setKeyword
  split
  · rename_i missing
    have differ := List.findIdx?_eq_none_iff.mp missing parameter (List.mem_of_getElem? found)
    rw [named, beq_self_eq_true] at differ
    cases differ
  · rename_i place foundToo
    obtain ⟨inside, same, -⟩ := List.findIdx?_eq_some_iff_getElem.mp foundToo
    have here := List.getElem?_eq_getElem inside
    obtain rfl := index_eq_of_name distinct found here (named.trans (beq_iff_eq.mp same).symm)
    have empty : argument? definition arguments done index = none := by
      rw [argument?, found, Option.bind_some, named, fresh, Option.or_none,
        List.getElem?_eq_none behind]
    rw [holds.slot index (by omega), empty]
    exact ⟨_, rfl⟩

/-- Keywords that are placed one after the other go to different parameters. -/
theorem Holds.setKeywords {keywords : Keywords}
    (holds : Holds locals (argument? definition arguments done) slots)
    {after : Array (Option Value)}
    (set : keywords.foldlM (Run.setKeyword definition) slots = .ok after) :
    (∀ keyword ∈ keywords, Awaits definition arguments keyword.1 ∧ done.lookup keyword.1 = none) ∧
      (keywords.map Prod.fst).Nodup ∧
      Holds locals (argument? definition arguments (done ++ keywords)) after := by
  induction keywords generalizing done slots with
  | nil =>
      cases set
      exact ⟨nofun, .nil, by rwa [List.append_nil]⟩
  | cons keyword rest inductionHypothesis =>
      rw [List.foldlM_cons] at set
      cases reached : Run.setKeyword definition slots keyword with
      | error problem =>
          rw [reached] at set
          cases set
      | ok middle =>
          rw [reached] at set
          obtain ⟨awaits, fresh, between⟩ := holds.setKeyword distinct room reached
          obtain ⟨others, once, filled⟩ := inductionHypothesis between set
          rw [List.append_assoc] at filled
          have apart : ∀ later ∈ rest, done.lookup later.1 = none ∧ later.1 ≠ keyword.1 := by
            intro later member
            have unknown := (others later member).2
            rw [List.lookup_append, Option.or_eq_none_iff] at unknown
            refine ⟨unknown.1, fun same => ?_⟩
            rw [same, List.lookup_cons_self] at unknown
            cases unknown.2
          refine ⟨List.forall_mem_cons.mpr ⟨⟨awaits, fresh⟩, fun later member => ?_⟩, ?_, filled⟩
          · exact ⟨(others later member).1, (apart later member).1⟩
          · refine List.nodup_cons.mpr ⟨fun repeated => ?_, once⟩
            obtain ⟨later, member, same⟩ := List.mem_map.mp repeated
            exact (apart later member).2 same

theorem Holds.exists_setKeywords {keywords : Keywords}
    (holds : Holds locals (argument? definition arguments done) slots)
    (fits : ∀ keyword ∈ keywords,
      Awaits definition arguments keyword.1 ∧ done.lookup keyword.1 = none)
    (once : (keywords.map Prod.fst).Nodup) :
    ∃ after, keywords.foldlM (Run.setKeyword definition) slots = .ok after := by
  induction keywords generalizing done slots with
  | nil => exact ⟨slots, rfl⟩
  | cons keyword rest inductionHypothesis =>
      obtain ⟨⟨awaits, fresh⟩, others⟩ := List.forall_mem_cons.mp fits
      obtain ⟨apart, onceToo⟩ := List.nodup_cons.mp once
      obtain ⟨middle, set⟩ := holds.exists_setKeyword distinct room awaits fresh
      obtain ⟨-, -, between⟩ := holds.setKeyword distinct room set
      rw [List.foldlM_cons, set]
      refine inductionHypothesis between (fun later member => ⟨(others later member).1, ?_⟩) onceToo
      have differ : (later.1 == keyword.1) = false :=
        beq_eq_false_iff_ne.mpr fun same => apart (List.mem_map.mpr ⟨later, member, same⟩)
      rw [List.lookup_append, (others later member).2, List.lookup_cons, differ, List.lookup_nil,
        Option.none_or]

end

/-- The required parameters are all given exactly if none is reported as missing. -/
theorem Holds.missingNames_eq_nil_iff (holds : Holds locals given slots) {required : Nat}
    (few : required ≤ definition.parameters.length) (room : definition.parameters.length ≤ locals) :
    missingNames definition required slots = [] ↔ ∀ index < required, given index ≠ none := by
  have filled {index : Nat} (inside : index < required) :
      Filled slots index ↔ given index ≠ none := by
    rw [Filled, holds.slot index (by omega), Option.ne_none_iff_exists']
    simp only [Option.some.injEq]
  constructor
  · intro nothing index inside
    exact (filled inside).mp (missingNames_nil nothing few index inside)
  · intro all
    rw [missingNames, List.map_eq_nil_iff, List.filter_eq_nil_iff]
    rintro ⟨parameter, index⟩ member
    obtain ⟨inside, -⟩ := List.getElem?_eq_some_iff.mp (List.mem_zipIdx_iff_getElem?.mp member)
    rw [List.length_take] at inside
    obtain ⟨value, here⟩ := (filled (by omega)).mpr (all index (by omega))
    rw [here]
    exact Bool.false_ne_true

/-- Whether a call of a function has one argument for each of its parameters, or none for one that
declares a default, and no others. -/
structure Accepts (definition : Definition) (arguments : List Value) (keywords : Keywords) :
    Prop where
  few : arguments.length ≤ definition.parameters.length
  named : ∀ keyword ∈ keywords, ∃ parameter ∈ definition.parameters, parameter.name = keyword.1
  /-- No parameter is given by position and by name. -/
  apart : ∀ index parameter, definition.parameters[index]? = some parameter →
    index < arguments.length → ∀ keyword ∈ keywords, keyword.1 ≠ parameter.name
  once : (keywords.map Prod.fst).Nodup
  given : ∀ index parameter, definition.parameters[index]? = some parameter →
    parameter.default = none →
      index < arguments.length ∨ ∃ keyword ∈ keywords, keyword.1 = parameter.name

/-- The steps of binding: arguments by position, arguments by name, and defaults. -/
theorem bindArguments_eq_ok_iff {arguments : List Value} {keywords : Keywords} :
    bindArguments definition defaults arguments keywords = .ok slots ↔
      arguments.length ≤ definition.parameters.length ∧ ∃ placed,
        keywords.foldlM (setKeyword definition)
            (positionalSlots definition.locals.length arguments) = .ok placed ∧
          missingNames definition (definition.parameters.length - defaults.length) placed = [] ∧
          slots = fillDefaults (definition.parameters.length - defaults.length) defaults
            definition.parameters.length placed := by
  unfold bindArguments
  simp only
  split
  next many =>
    refine ⟨nofun, fun ⟨few, _⟩ => ?_⟩
    omega
  next few =>
    rw [and_iff_right (Nat.le_of_not_lt few)]
    cases keywords.foldlM (setKeyword definition)
        (positionalSlots definition.locals.length arguments) with
    | error problem => exact ⟨nofun, fun ⟨_, placed, _⟩ => nomatch placed⟩
    | ok placed =>
        simp only [bind, Except.bind, Except.ok.injEq, exists_eq_left']
        split
        next nothing =>
          simp only [nothing, true_and]
          exact ⟨fun same => (Except.ok.inj same).symm, fun same => congrArg Except.ok same.symm⟩
        next missing => exact ⟨nofun, fun ⟨nothing, _⟩ => absurd nothing missing⟩

theorem Accepts.awaits {arguments : List Value} {keywords : Keywords}
    (accepts : Accepts definition arguments keywords) :
    ∀ keyword ∈ keywords, Awaits definition arguments keyword.1 := by
  intro keyword member
  obtain ⟨parameter, inside, named⟩ := accepts.named keyword member
  obtain ⟨index, found⟩ := List.mem_iff_getElem?.mp inside
  refine ⟨index, parameter, found, named, Nat.le_of_not_lt fun taken => ?_⟩
  exact accepts.apart index parameter found taken keyword member named.symm

/-- The slots of a call: each parameter has its argument by position, else by name, else its own
default, and the other locals are unbound. -/
structure Binds (definition : Definition) (defaults arguments : List Value) (keywords : Keywords)
    (slots : Array (Option Value)) : Prop where
  size : slots.size = definition.locals.length
  parameter : ∀ index parameter, definition.parameters[index]? = some parameter →
    ∃ value, slots[index]? = some (some value) ∧
      arguments[index]?.or ((keywords.lookup parameter.name).or
        (ownDefault? definition defaults index)) = some value
  rest : ∀ index, definition.parameters.length ≤ index → index < definition.locals.length →
    slots[index]? = some none

section

variable (wellFormed : definition.WellFormed)
  (values : List.Forall₂ (HasValue below) (definition.parameters.filterMap Parameter.default)
    defaults) {arguments : List Value} {keywords : Keywords}

theorem lookup_ne_none_iff {name : String} :
    keywords.lookup name ≠ none ↔ ∃ keyword ∈ keywords, keyword.1 = name := by
  rw [ne_eq, List.lookup_eq_none_iff]
  simp only [bne_iff_ne, ne_eq, not_forall, not_not, exists_prop, @eq_comm _ name]

theorem Holds.start (few : arguments.length ≤ locals) :
    Holds locals (argument? definition arguments []) (positionalSlots locals arguments) := by
  refine (Holds.positional few).congr fun index _ => ?_
  rw [argument?]
  cases definition.parameters[index]? <;> exact Option.or_none.symm

include wellFormed values

theorem accepts_iff :
    (∃ slots, bindArguments definition defaults arguments keywords = .ok slots) ↔
      Accepts definition arguments keywords := by
  have distinct := wellFormed.parameters.distinct
  have room := wellFormed.parameters_le
  have required {index : Nat} {parameter : Parameter}
      (found : definition.parameters[index]? = some parameter) :=
    default_eq_none_iff wellFormed.parameters.defaults values found
  simp only [bindArguments_eq_ok_iff]
  constructor
  · rintro ⟨_, few, placed, set, nothing, -⟩
    obtain ⟨fits, once, held⟩ :=
      (Holds.start (Nat.le_trans few room)).setKeywords distinct room set
    refine ⟨few, fun keyword member => ?_, ?_, once, fun index parameter found undeclared => ?_⟩
    · obtain ⟨⟨index, parameter, found, named, -⟩, -⟩ := fits keyword member
      exact ⟨parameter, List.mem_of_getElem? found, named⟩
    · intro index parameter found taken keyword member same
      obtain ⟨⟨place, other, foundToo, named, behind⟩, -⟩ := fits keyword member
      have := index_eq_of_name distinct found foundToo (same.symm.trans named.symm)
      omega
    · have given := (held.missingNames_eq_nil_iff (Nat.sub_le _ _) room).mp nothing index
        ((required found).mp undeclared)
      rw [argument?, found, Option.bind_some, ne_eq, Option.or_eq_none_iff, not_and_or] at given
      rcases given with taken | named
      · exact .inl (Nat.lt_of_not_le fun beyond => taken (List.getElem?_eq_none beyond))
      · exact .inr (lookup_ne_none_iff.mp named)
  · intro accepts
    have start : Holds _ (argument? definition arguments []) _ :=
      Holds.start (Nat.le_trans accepts.few room)
    have fits : ∀ keyword ∈ keywords, Awaits definition arguments keyword.1 ∧
        ([] : Keywords).lookup keyword.1 = none :=
      fun keyword member => ⟨accepts.awaits keyword member, rfl⟩
    obtain ⟨placed, set⟩ := start.exists_setKeywords distinct room fits accepts.once
    obtain ⟨-, -, held⟩ := start.setKeywords distinct room set
    refine ⟨_, accepts.few, placed, set, ?_, rfl⟩
    refine (held.missingNames_eq_nil_iff (Nat.sub_le _ _) room).mpr fun index needed => ?_
    have found := List.getElem?_eq_getElem (Nat.lt_of_lt_of_le needed (Nat.sub_le _ _))
    rw [argument?, found, Option.bind_some, ne_eq, Option.or_eq_none_iff, not_and_or]
    rcases accepts.given index _ found ((required found).mpr needed) with taken | named
    · exact .inl (by rw [List.getElem?_eq_getElem taken]; exact Option.some_ne_none _)
    · exact .inr (lookup_ne_none_iff.mpr named)

theorem binds_of_bindArguments
    (bound : bindArguments definition defaults arguments keywords = .ok slots) :
    Binds definition defaults arguments keywords slots := by
  have distinct := wellFormed.parameters.distinct
  have room := wellFormed.parameters_le
  obtain ⟨few, placed, set, nothing, rfl⟩ := bindArguments_eq_ok_iff.mp bound
  obtain ⟨-, -, held⟩ := (Holds.start (Nat.le_trans few room)).setKeywords distinct room set
  have given := (held.missingNames_eq_nil_iff (Nat.sub_le _ _) room).mp nothing
  have filled := held.fillDefaults (definition.parameters.length - defaults.length) defaults room
  refine ⟨filled.size, fun index parameter found => ?_, fun index beyond inside => ?_⟩
  · obtain ⟨inside, -⟩ := List.getElem?_eq_some_iff.mp found
    have dealt := ownDefaults_getElem? wellFormed.parameters.defaults values.length_eq.symm inside
    rw [filled.slot index (by omega), ownDefault?, dealt, Option.join_some, ← Option.or_assoc,
      filledSlot]
    have argument : argument? definition arguments ([] ++ keywords) index =
        arguments[index]?.or (keywords.lookup parameter.name) := by
      rw [argument?, found]
      rfl
    rw [← argument]
    by_cases optional : definition.parameters.length - defaults.length ≤ index
    · rw [if_pos ⟨inside, optional⟩, if_pos optional]
      have own : index - (definition.parameters.length - defaults.length) < defaults.length := by
        omega
      rw [List.getElem?_eq_getElem own]
      cases argument? definition arguments ([] ++ keywords) index <;> exact ⟨_, rfl, rfl⟩
    · rw [if_neg fun both => optional both.2, if_neg optional]
      obtain ⟨value, here⟩ := Option.ne_none_iff_exists'.mp (given index (Nat.lt_of_not_le optional))
      exact ⟨value, by rw [here], by rw [here, Option.some_or]⟩
  · have taken : arguments[index]? = none := List.getElem?_eq_none (Nat.le_trans few beyond)
    rw [filled.slot index inside, filledSlot, if_neg (by omega), argument?, taken,
      List.getElem?_eq_none beyond]
    rfl

end

/-- A call of a function of an accepted program is accepted exactly if its arguments fit the
parameters: there are no more by position than parameters, every keyword names a parameter, none is
given twice, and every parameter without a default is given.  Then each parameter has its argument by
position, else by name, else the value that its own default had when the function was defined, and no
other local is bound. -/
theorem bindArguments_binds {source : String} {program : Program}
    (accepted : Program.parse? source = some (.ok program)) (member : definition ∈ program.functions)
    {object : FunctionObject} (made : MadeFrom environment below definition object)
    (arguments : List Value) (keywords : Keywords) :
    ((∃ slots, bindArguments definition object.defaults arguments keywords = .ok slots) ↔
        Accepts definition arguments keywords) ∧
      (∀ slots, bindArguments definition object.defaults arguments keywords = .ok slots →
        Binds definition object.defaults arguments keywords slots) ∧
      ∀ index parameter expr, definition.parameters[index]? = some parameter →
        parameter.default = some expr →
          ∃ value, ownDefault? definition object.defaults index = some value ∧
            HasValue below expr value := by
  have wellFormed := Program.wellFormed_of_accepted accepted definition member
  have values := made.defaults_hasValue
  refine ⟨accepts_iff wellFormed values, fun slots => binds_of_bindArguments wellFormed values, ?_⟩
  intro index parameter expr found declared
  obtain ⟨value, dealt, has⟩ := ownDefaults_hasValue values found declared
  exact ⟨value, by rw [ownDefault?, dealt, Option.join_some], has⟩

/-- A function with two defaults and a local that is no parameter. -/
def deferring : Definition :=
  ⟨0, "f", [⟨"a", none⟩, ⟨"b", some (.int 2)⟩, ⟨"c", some (.int 3)⟩],
    [.mk 1 true (.assign [.name "d"] (.name "a"))], 1, 1, ["a", "b", "c", "d"]⟩

/-- What the call `f(7, c=9)` of that function binds. -/
theorem bindArguments_binds_deferring :
    Accepts deferring [.int 7] [("c", .int 9)] ∧
      Binds deferring [.int 2, .int 3] [.int 7] [("c", .int 9)]
        #[some (.int 7), some (.int 2), some (.int 9), none] ∧
      ¬ Accepts deferring [] [("c", .int 9)] := by
  have accepted : Program.parse? "def f(a, b=2, c=3): d = a\n" =
      some (.ok ⟨[deferring], [.mk 1 false (.define 0)]⟩) := by cbv
  let environment : Environment Unit := ⟨0, [deferring], 5, none⟩
  have made : MadeFrom environment (level environment 1) deferring
      ⟨0, 0, "f", [.int 2, .int 3]⟩ :=
    ⟨0, .start .empty .empty (), _, rfl, rfl, rfl⟩
  have binding := bindArguments_binds accepted List.mem_cons_self made
  refine ⟨(binding [.int 7] [("c", .int 9)]).1.mp ⟨_, rfl⟩,
    (binding [.int 7] [("c", .int 9)]).2.1 _ rfl, fun accepts => ?_⟩
  obtain ⟨slots, impossible⟩ := (binding [] [("c", .int 9)]).1.mpr accepts
  cases impossible

end Stepwise.Run
