import Mathlib.Logic.Relation
import Mathlib.Logic.Function.Basic
import Stepwise.Proofs.Containers.History
import Stepwise.Proofs.Containers.Atomicity
import Stepwise.Proofs.Keying
import Stepwise.Run.Interpreter

/-!
The dicts of a heap and their histories.

A chronicle is kept along with the operations on a heap: it writes down what each operation does to
the dict that it is about.  Every dict is then the replay of its history, whatever else happens in
between.
-/

namespace Stepwise.Run

open Script

abbrev Chronicle := Nat → List (Dict.Change Value)

def Chronicle.extended (chronicle : Chronicle) (ref : Nat) (changes : List (Dict.Change Value)) :
    Chronicle :=
  Function.update chronicle ref (chronicle ref ++ changes)

def puts (entries : List (Key × Value)) : List (Dict.Change Value) :=
  entries.map fun entry => .put entry.1 entry.2

def namedEntries (keywords : Keywords) : List (Key × Value) :=
  keywords.map fun keyword => (.str keyword.1, keyword.2)

def pairEntries (heap : Heap) : List Value → List (Key × Value)
  | [] => []
  | element :: rest =>
      match element.items? heap with
      | some ([first, value], after) =>
          match first.toKey with
          | .ok key => (key, value) :: pairEntries after rest
          | .error _ => []
      | _ => []

/-- The entries that the arguments by position of an update give: those of a dict, or pairs. -/
def suppliedEntries (heap : Heap) : List Value → List (Key × Value)
  | [] => []
  | .dict ref :: _ => (heap.dict ref).entries
  | source :: _ =>
      match source.items? heap with
      | some (elements, after) => pairEntries after elements
      | none => []

inductive Operands {σ : Type} (below : Level σ) :
    List (Expr × Expr) → Machine σ → List (Key × Value) → Machine σ → Prop where
  | nil (machine : Machine σ) : Operands below [] machine [] machine
  | cons {first second : Expr} {index value : Value} {key : Key} {rest : List (Expr × Expr)}
      {entries : List (Key × Value)} {machine keyed valued after : Machine σ} :
      below.evaluate first machine = some (.ok index, keyed) → index.toKey = .ok key →
        below.evaluate second keyed = some (.ok value, valued) →
          Operands below rest valued entries after →
            Operands below ((first, second) :: rest) machine ((key, value) :: entries) after

/-- An operation that makes, changes or reads a dict. -/
inductive Operation where
  | construct (arguments : List Value) (keywords : Keywords)
  | assign (ref : Nat) (index value : Value)
  | subscript (ref : Nat) (index : Value)
  | member (depth ref : Nat) (item : Value)
  | method (ref : Nat) (name : String) (arguments : List Value) (keywords : Keywords)

namespace Operation

/-- The dict that an operation is about, if it is not to make one. -/
def receiver? : Operation → Option Nat
  | .construct .. => none
  | .assign ref .. => some ref
  | .subscript ref _ => some ref
  | .member _ ref _ => some ref
  | .method ref .. => some ref

def perform : Operation → Action Value
  | .construct arguments keywords => applyPlain .dict arguments keywords
  | .assign ref index value => do
      setItem (.dict ref) index value
      return .none
  | .subscript ref index => item (.dict ref) index
  | .member depth ref item => return .bool (← comparison depth .member item (.dict ref))
  | .method ref name arguments keywords => dictMethod ref name arguments keywords

def record (heap : Heap) (chronicle : Chronicle) : Operation → Value → Chronicle
  | .construct arguments keywords, .dict made =>
      Function.update chronicle made
        (puts (suppliedEntries heap arguments ++ namedEntries keywords))
  | .assign ref index value, _ =>
      match index.toKey with
      | .ok key => chronicle.extended ref [.put key value]
      | .error _ => chronicle
  | .method ref "update" arguments keywords, _ =>
      chronicle.extended ref (puts (suppliedEntries heap arguments ++ namedEntries keywords))
  | .method ref "pop" (index :: _) _, _ =>
      match index.toKey with
      | .ok key => chronicle.extended ref [.drop key]
      | .error _ => chronicle
  | .method ref "copy" _ _, .dict made => Function.update chronicle made (chronicle ref)
  | _, _ => chronicle

end Operation

/-- A step of a run and what it does to the histories of dicts. -/
inductive Step (σ : Type) : Chronicle × Heap → Chronicle × Heap → Prop where
  /-- Whatever leaves dicts alone. -/
  | elsewhere {chronicle : Chronicle} {heap after : Heap} : after.dicts = heap.dicts →
      Step σ (chronicle, heap) (chronicle, after)
  | fails {chronicle : Chronicle} {heap after : Heap} {operation : Operation}
      {error : RuntimeError} : operation.perform heap = some (.error error, after) →
      Step σ (chronicle, heap) (chronicle, after)
  | performs {chronicle : Chronicle} {heap after : Heap} {operation : Operation} {value : Value} :
      (∀ ref ∈ operation.receiver?, ref < heap.dicts.size) →
        operation.perform heap = some (.ok value, after) →
          Step σ (chronicle, heap) (operation.record heap chronicle value, after)
  /-- The end of a display, after its keys and values. -/
  | display {chronicle : Chronicle} {below : Level σ} {fuel made : Nat} {exprs : List (Expr × Expr)}
      {entries : List (Key × Value)} {machine middle after : Machine σ} :
      Operands below exprs machine entries middle →
        evaluate below fuel (.dict exprs) machine = some (.ok (.dict made), after) →
          Step σ (chronicle, middle.heap)
            (Function.update chronicle made (puts entries), after.heap)

/-- Whether every dict of a heap has gone through its history. -/
def Describes (chronicle : Chronicle) (heap : Heap) : Prop :=
  ∀ ref < heap.dicts.size, heap.dict ref = Dict.replay (chronicle ref)

open Stepwise.Run.Action

def inserted (dict : Dict Value) (entries : List (Key × Value)) : Dict Value :=
  entries.foldl (fun dict entry => dict.insert entry.1 entry.2) dict

theorem foldl_puts (dict : Dict Value) (entries : List (Key × Value)) :
    (puts entries).foldl Dict.Change.apply dict = inserted dict entries := by
  rw [puts, List.foldl_map]
  rfl

theorem replay_puts (history : List (Dict.Change Value)) (entries : List (Key × Value)) :
    Dict.replay (history ++ puts entries) = inserted (Dict.replay history) entries := by
  rw [Dict.replay, List.foldl_append, foldl_puts, Dict.replay]

theorem inserted_append (dict : Dict Value) (first second : List (Key × Value)) :
    inserted dict (first ++ second) = inserted (inserted dict first) second :=
  List.foldl_append

theorem withKeywords_eq (dict : Dict Value) (keywords : Keywords) :
    withKeywords dict keywords = inserted dict (namedEntries keywords) := by
  rw [inserted, namedEntries, List.foldl_map]
  rfl

theorem updateWithPairs_ok {elements : List Value} {dict merged : Dict Value} {position : Nat}
    {heap after : Heap}
    (ended : updateWithPairs dict position elements heap = some (.ok merged, after)) :
    merged = inserted dict (pairEntries heap elements) := by
  induction elements generalizing dict position heap with
  | nil =>
      cases ended
      rfl
  | cons element rest inductionHypothesis =>
      rw [updateWithPairs] at ended
      obtain ⟨⟨first, value⟩, middle, paired, ended⟩ := bind_ok ended
      obtain ⟨key, last, keyed, ended⟩ := bind_ok ended
      have merging := inductionHypothesis ended
      obtain ⟨named, rfl⟩ := keyOf_ok keyed
      rw [pairEntries, updatePair_ok paired]
      simp only [named]
      exact merging

theorem updated_ok {source : Value} {others : List Value} {dict merged : Dict Value}
    {heap after : Heap} (ended : updated dict source heap = some (.ok merged, after)) :
    merged = inserted dict (suppliedEntries heap (source :: others)) := by
  have merging (ended : (do updateWithPairs dict 0 (← itemsOf source)) heap =
      some (.ok merged, after)) :
      merged = inserted dict (match source.items? heap with
        | some (elements, after) => pairEntries after elements
        | none => []) := by
    obtain ⟨elements, middle, listed, ended⟩ := bind_ok ended
    rw [itemsOf_ok listed]
    exact updateWithPairs_ok ended
  cases source with
  | dict ref =>
      cases ended
      rfl
  | _ => exact merging ended

structure Edits (before after : Heap) (ref : Nat) (dict : Dict Value) : Prop where
  size : after.dicts.size = before.dicts.size
  here : after.dict ref = dict
  others : ∀ other ≠ ref, after.dict other = before.dict other

theorem Edits.modify {before after : Heap} {ref : Nat} (inside : ref < before.dicts.size)
    (change : Dict Value → Dict Value) (changed : after.dicts = before.dicts.modify ref change) :
    Edits before after ref (change (before.dict ref)) := by
  refine ⟨by rw [changed, Array.size_modify], ?_, fun other apart => ?_⟩
  · rw [Heap.dict, Heap.dict, changed, Array.getElem?_modify, if_pos rfl,
      Array.getElem?_eq_getElem inside]
    rfl
  · rw [Heap.dict, Heap.dict, changed, Array.getElem?_modify, if_neg (Ne.symm apart)]

variable {chronicle : Chronicle} {heap after : Heap}

theorem Describes.congr (describes : Describes chronicle heap) (same : after.dicts = heap.dicts) :
    Describes chronicle after := by
  intro ref inside
  rw [Heap.dict, same]
  exact describes ref (same ▸ inside)

theorem Describes.edits (describes : Describes chronicle heap) {ref : Nat}
    (inside : ref < heap.dicts.size) {changes : List (Dict.Change Value)}
    (edits : Edits heap after ref (changes.foldl Dict.Change.apply (heap.dict ref))) :
    Describes (chronicle.extended ref changes) after := by
  intro other member
  rw [Chronicle.extended]
  by_cases same : other = ref
  · subst same
    rw [edits.here, Function.update_self, Dict.replay, List.foldl_append,
      describes other inside, Dict.replay]
  · rw [Function.update_of_ne same, edits.others other same]
    exact describes other (edits.size ▸ member)

theorem Describes.adds (describes : Describes chronicle heap) {dict : Dict Value}
    (added : after.dicts = heap.dicts.push dict) {history : List (Dict.Change Value)}
    (told : dict = Dict.replay history) :
    Describes (Function.update chronicle heap.dicts.size history) after := by
  intro ref inside
  have within : ref < heap.dicts.size + 1 := by
    rw [← Array.size_push dict, ← added]
    exact inside
  rw [Heap.dict, added, Array.getElem?_push]
  by_cases new : ref = heap.dicts.size
  · subst new
    rw [if_pos rfl, Function.update_self, told]
    rfl
  · rw [if_neg new, Function.update_of_ne new]
    exact describes ref (by omega)

def KeepsDicts {α : Type} (action : Action α) : Prop :=
  ∀ heap result after, action heap = some (result, after) → after.dicts = heap.dicts

theorem KeepsDicts.ofReads {α : Type} {action : Action α} (reads : Reads action) :
    KeepsDicts action :=
  fun heap result after ended => (reads heap result after ended).dicts

theorem KeepsDicts.bind {α β : Type} {action : Action α} {next : α → Action β}
    (reads : Reads action) (rest : ∀ value, KeepsDicts (next value)) :
    KeepsDicts (action >>= next) := by
  intro heap result after ended
  rcases reads.bind_ended ended with alike | ⟨value, middle, alike, ended⟩
  · exact alike.dicts
  · exact (rest value middle result after ended).trans alike.dicts

theorem KeepsDicts.newList (items : List Value) : KeepsDicts (Action.newList items) := by
  intro heap result after ended
  cases ended
  rfl

theorem erase_of_get?_none {α : Type} {dict : Dict α} {key : Key} (absent : dict.get? key = none) :
    dict.erase key = dict := by
  rw [Dict.get?, Option.map_eq_none_iff, List.find?_eq_none] at absent
  exact Dict.ext (List.eraseP_of_forall_not absent)

section

variable {ref : Nat} {name : String} {arguments : List Value} {keywords : Keywords} {value : Value}

theorem dictMethod_pop (inside : ref < heap.dicts.size)
    (ended : dictMethod ref "pop" arguments keywords heap = some (.ok value, after)) :
    ∃ index others key, arguments = index :: others ∧ index.toKey = .ok key ∧
      Edits heap after ref ((heap.dict ref).erase key) := by
  obtain ⟨_, _, accepted, ended⟩ := bind_ok ended
  rw [Looks.noKeywords _ _ _ _ _ accepted] at ended
  obtain ⟨_, _, observed, ended⟩ := bind_ok ended
  cases observed
  obtain ⟨_, _, counted, ended⟩ := bind_ok ended
  rw [Looks.argumentCount _ _ _ _ _ _ _ counted] at ended
  have given := argumentCount_ok counted
  obtain ⟨key, _, keyed, ended⟩ := bind_ok ended
  obtain ⟨named, same⟩ := keyOf_ok keyed
  rw [same] at ended
  obtain ⟨index, others, rfl⟩ := List.exists_cons_of_length_pos given
  refine ⟨index, others, key, rfl, named, ?_⟩
  cases found : (heap.dict ref).get? key with
  | some removed =>
      simp only [found] at ended
      cases ended
      exact .modify inside (fun entries => entries.erase key) rfl
  | none =>
      rw [erase_of_get?_none found]
      cases others with
      | nil =>
          simp only [found] at ended
          cases ended
      | cons default rest =>
          simp only [found] at ended
          cases ended
          exact ⟨rfl, rfl, fun _ _ => rfl⟩

theorem dictMethod_update (inside : ref < heap.dicts.size)
    (ended : dictMethod ref "update" arguments keywords heap = some (.ok value, after)) :
    Edits heap after ref
      (inserted (heap.dict ref) (suppliedEntries heap arguments ++ namedEntries keywords)) := by
  obtain ⟨_, _, observed, ended⟩ := bind_ok ended
  cases observed
  obtain ⟨_, _, counted, ended⟩ := bind_ok ended
  rw [Looks.argumentCount _ _ _ _ _ _ _ counted] at ended
  have editing {merged : Dict Value} {middle : Heap}
      (merges : merged = inserted (heap.dict ref) (suppliedEntries heap arguments))
      (alike : heap.Alike middle)
      (ended : (do
        Action.update fun heap => heap.modifyDict ref fun _ => withKeywords merged keywords
        return Value.none) middle = some (.ok value, after)) :
      Edits heap after ref
        (inserted (heap.dict ref) (suppliedEntries heap arguments ++ namedEntries keywords)) := by
    cases ended
    rw [inserted_append, ← merges, ← withKeywords_eq]
    refine .modify inside (fun _ => withKeywords merged keywords) ?_
    exact congrArg (fun dicts => dicts.modify ref fun _ => withKeywords merged keywords) alike.dicts
  cases arguments with
  | nil => exact editing rfl (.refl _) ended
  | cons source others =>
      obtain ⟨merged, middle, merges, ended⟩ := bind_ok ended
      exact editing (updated_ok merges) (Reads.updated _ _ _ _ _ merges) ended

theorem dictMethod_copy
    (ended : dictMethod ref "copy" arguments keywords heap = some (.ok value, after)) :
    value = .dict heap.dicts.size ∧ after.dicts = heap.dicts.push (heap.dict ref) := by
  obtain ⟨_, _, accepted, ended⟩ := bind_ok ended
  rw [Looks.noKeywords _ _ _ _ _ accepted] at ended
  obtain ⟨_, _, observed, ended⟩ := bind_ok ended
  cases observed
  obtain ⟨_, _, counted, ended⟩ := bind_ok ended
  rw [Looks.argumentCount _ _ _ _ _ _ _ counted] at ended
  cases ended
  exact ⟨rfl, rfl⟩

theorem dictMethod_dicts (pop : name ≠ "pop") (update : name ≠ "update") (copy : name ≠ "copy") :
    KeepsDicts (dictMethod ref name arguments keywords) := by
  have counted {β : Type} {least most : Nat} {next : Unit → Action β}
      (rest : ∀ checked, KeepsDicts (next checked)) :
      KeepsDicts (argumentCount name arguments.length least (some most) >>= next) :=
    .bind (Looks.argumentCount _ _ _ _).reads rest
  unfold dictMethod
  rw [if_pos (bne_iff_ne.mpr update)]
  refine .bind (Looks.noKeywords _ _).reads fun _ => .bind (.observe _) fun dict => ?_
  dsimp only
  split
  · exact counted fun _ => .bind (.keyOf _) fun _ => .ofReads (.pure _)
  · exact counted fun _ => .bind (.change fun heap => .keysToValues heap _) fun _ => .newList _
  · exact counted fun _ => .newList _
  · exact counted fun _ => .bind (.entryTuples _) fun _ => .newList _
  · exact absurd rfl pop
  · exact absurd rfl update
  · exact absurd rfl copy
  · exact .ofReads (.noAttribute _ _)

end

theorem applyPlain_dict {arguments : List Value} {keywords : Keywords} {value : Value}
    (ended : applyPlain .dict arguments keywords heap = some (.ok value, after)) :
    value = .dict heap.dicts.size ∧ after.dicts = heap.dicts.push
      (inserted .empty (suppliedEntries heap arguments ++ namedEntries keywords)) := by
  obtain ⟨_, _, counted, ended⟩ := bind_ok ended
  rw [Looks.argumentCount _ _ _ _ _ _ _ counted] at ended
  have making {merged : Dict Value} {middle : Heap}
      (merges : merged = inserted .empty (suppliedEntries heap arguments))
      (alike : heap.Alike middle)
      (ended : newDict (withKeywords merged keywords) middle = some (.ok value, after)) :
      value = .dict heap.dicts.size ∧ after.dicts = heap.dicts.push
        (inserted .empty (suppliedEntries heap arguments ++ namedEntries keywords)) := by
    cases ended
    rw [inserted_append, ← merges, ← withKeywords_eq, ← alike.dicts]
    exact ⟨rfl, rfl⟩
  cases arguments with
  | nil => exact making rfl (.refl _) ended
  | cons source others =>
      obtain ⟨merged, middle, merges, ended⟩ := bind_ok ended
      exact making (updated_ok merges) (Reads.updated _ _ _ _ _ merges) ended

theorem setItem_dict {ref : Nat} {index value : Value} (inside : ref < heap.dicts.size)
    (ended : setItem (.dict ref) index value heap = some (.ok (), after)) :
    ∃ key, index.toKey = .ok key ∧ Edits heap after ref ((heap.dict ref).insert key value) := by
  obtain ⟨key, _, keyed, ended⟩ := bind_ok ended
  obtain ⟨named, same⟩ := keyOf_ok keyed
  rw [same] at ended
  cases ended
  exact ⟨key, named, .modify inside (fun entries => entries.insert key value) rfl⟩

theorem item_reads (ref : Nat) (index : Value) : Reads (item (.dict ref) index) := by
  refine .bind (.keyOf _) fun key => .bind (.observe _) fun dict => ?_
  split
  · exact .pure _
  · exact .bind (.observe _) fun _ => .throw _

theorem member_reads (depth ref : Nat) (item : Value) :
    Reads (comparison depth .member item (.dict ref)) :=
  .bind (.keyOf _) fun _ => .bind (.observe _) fun _ => .pure _

theorem onHeap_keyOf_eq_ok_iff {σ : Type} {index : Value} {key : Key} {machine after : Machine σ} :
    Effect.onHeap (keyOf index) machine = some (.ok key, after) ↔
      index.toKey = .ok key ∧ after = machine := by
  rw [Effect.onHeap_apply, keyOf]
  cases index.toKey with
  | ok found =>
      constructor
      · intro ended
        cases ended
        exact ⟨rfl, rfl⟩
      · rintro ⟨named, rfl⟩
        cases named
        rfl
  | error part =>
      constructor
      · intro ended
        cases ended
      · rintro ⟨named, -⟩
        cases named

/-- The entries of a display are those of its keys and values, put in from left to right. -/
theorem evaluateEntries_eq_ok_iff {σ : Type} {below : Level σ} {exprs : List (Expr × Expr)}
    {dict made : Dict Value} {machine after : Machine σ} :
    evaluateEntries below dict exprs machine = some (.ok made, after) ↔
      ∃ entries, Operands below exprs machine entries after ∧ made = inserted dict entries := by
  induction exprs generalizing dict machine with
  | nil =>
      constructor
      · intro ended
        cases ended
        exact ⟨[], .nil _, rfl⟩
      · rintro ⟨_, ⟨⟩, rfl⟩
        rfl
  | cons expr rest inductionHypothesis =>
      obtain ⟨first, second⟩ := expr
      rw [evaluateEntries]
      constructor
      · intro ended
        obtain ⟨index, keyed, evaluated, ended⟩ := Effect.bind_ok_iff.mp ended
        obtain ⟨key, _, named, ended⟩ := Effect.bind_ok_iff.mp ended
        obtain ⟨named, same⟩ := onHeap_keyOf_eq_ok_iff.mp named
        rw [same] at ended
        obtain ⟨value, valued, valuing, ended⟩ := Effect.bind_ok_iff.mp ended
        obtain ⟨entries, operands, made⟩ := inductionHypothesis.mp ended
        exact ⟨(key, value) :: entries, .cons evaluated named valuing operands, made⟩
      · rintro ⟨_, operands, rfl⟩
        cases operands with
        | cons evaluated named valuing operands =>
            have behind := inductionHypothesis.mpr ⟨_, operands, rfl⟩
            simp only [Effect.bind_apply, evaluated, onHeap_keyOf_eq_ok_iff.mpr ⟨named, rfl⟩, valuing]
            exact behind

/-- What an operation that has a value does to the dicts of a heap and to their histories. -/
inductive Recorded (chronicle : Chronicle) (heap after : Heap) : Option Nat → Chronicle → Prop where
  | keeps {receiver : Option Nat} : after.dicts = heap.dicts →
      Recorded chronicle heap after receiver chronicle
  | edits {ref : Nat} {changes : List (Dict.Change Value)} : ref < heap.dicts.size →
      Edits heap after ref (changes.foldl Dict.Change.apply (heap.dict ref)) →
      Recorded chronicle heap after (some ref) (chronicle.extended ref changes)
  | adds {receiver : Option Nat} {dict : Dict Value} {history : List (Dict.Change Value)} :
      after.dicts = heap.dicts.push dict → (Describes chronicle heap → dict = Dict.replay history) →
      Recorded chronicle heap after receiver (Function.update chronicle heap.dicts.size history)

theorem Operation.perform_recorded {operation : Operation} {value : Value}
    (inside : ∀ ref ∈ operation.receiver?, ref < heap.dicts.size)
    (ended : operation.perform heap = some (.ok value, after)) :
    Recorded chronicle heap after operation.receiver? (operation.record heap chronicle value) := by
  cases operation with
  | construct arguments keywords =>
      obtain ⟨rfl, added⟩ := applyPlain_dict ended
      exact .adds added fun _ => (replay_puts [] _).symm
  | assign ref index assigned =>
      obtain ⟨_, _, set, ended⟩ := bind_ok ended
      cases ended
      obtain ⟨key, named, edits⟩ := setItem_dict (inside ref rfl) set
      rw [record, named]
      exact .edits (inside ref rfl) edits
  | subscript ref index => exact .keeps (item_reads _ _ _ _ _ ended).dicts
  | member depth ref item =>
      exact .keeps (Reads.bind (member_reads _ _ _) (fun _ => .pure _) _ _ _ ended).dicts
  | method ref name arguments keywords =>
      have here := inside ref rfl
      by_cases pop : name = "pop"
      · subst pop
        obtain ⟨index, others, key, rfl, named, edits⟩ := dictMethod_pop here ended
        rw [record, named]
        exact .edits here edits
      by_cases update : name = "update"
      · subst update
        rw [record]
        refine .edits here ?_
        rw [foldl_puts]
        exact dictMethod_update here ended
      by_cases copy : name = "copy"
      · subst copy
        obtain ⟨rfl, added⟩ := dictMethod_copy ended
        rw [record]
        exact .adds added fun describes => describes ref here
      have silent : record heap chronicle (.method ref name arguments keywords) value = chronicle := by
        unfold record
        split <;> simp_all
      rw [silent]
      exact .keeps (dictMethod_dicts pop update copy _ _ _ ended)

theorem Recorded.describes {receiver : Option Nat} {later : Chronicle}
    (recorded : Recorded chronicle heap after receiver later) (describes : Describes chronicle heap) :
    Describes later after := by
  cases recorded with
  | keeps same => exact describes.congr same
  | edits inside edits => exact describes.edits inside edits
  | adds added told => exact describes.adds added (told describes)

theorem Recorded.others {receiver : Option Nat} {later : Chronicle}
    (recorded : Recorded chronicle heap after receiver later) {ref : Nat}
    (inside : ref < heap.dicts.size) (other : receiver ≠ some ref) :
    after.dict ref = heap.dict ref ∧ later ref = chronicle ref := by
  cases recorded with
  | keeps same => exact ⟨by rw [Heap.dict, Heap.dict, same], rfl⟩
  | edits _ edits =>
      have apart : ref ≠ _ := fun same => other (congrArg some same.symm)
      exact ⟨edits.others ref apart, Function.update_of_ne apart _ _⟩
  | adds added _ =>
      refine ⟨?_, Function.update_of_ne (Nat.ne_of_lt inside) _ _⟩
      rw [Heap.dict, Heap.dict, added, Array.getElem?_push, if_neg (Nat.ne_of_lt inside)]

theorem Operation.perform_atomic (operation : Operation) : Atomic operation.perform := by
  cases operation with
  | construct arguments keywords =>
      refine .bind (Looks.argumentCount _ _ _ _).reads fun _ => ?_
      cases arguments with
      | nil => exact .bind (.pure _) fun _ => .change _
      | cons source others => exact .bind (.updated _ _) fun _ => .change _
  | assign ref index value => exact (Atomic.setItem _ _ _).thenReturn _
  | subscript ref index => exact (item_reads ref index).atomic
  | member depth ref item => exact .bind (member_reads depth ref item) fun _ => Reads.atomic (.pure _)
  | method ref name arguments keywords => exact .dictMethod ref name arguments keywords

theorem Step.describes {σ : Type} {before later : Chronicle × Heap} (step : Step σ before later)
    (describes : Describes before.1 before.2) : Describes later.1 later.2 := by
  cases step with
  | elsewhere same => exact describes.congr same
  | fails failed => exact describes.congr (Operation.perform_atomic _ _ _ _ failed).dicts
  | performs inside ended => exact (Operation.perform_recorded inside ended).describes describes
  | display operands made =>
      obtain ⟨dict, _, evaluated, made⟩ := Effect.bind_ok_iff.mp made
      rw [evaluateEntries_eq_ok_iff.mpr ⟨_, operands, rfl⟩] at evaluated
      cases evaluated
      cases made
      exact describes.adds rfl (replay_puts [] _).symm

theorem describes_run {σ : Type} {before later : Chronicle × Heap}
    (run : Relation.ReflTransGen (Step σ) before later) (describes : Describes before.1 before.2) :
    Describes later.1 later.2 := by
  induction run with
  | refl => exact describes
  | tail _ step inductionHypothesis => exact step.describes inductionHypothesis

end Stepwise.Run
