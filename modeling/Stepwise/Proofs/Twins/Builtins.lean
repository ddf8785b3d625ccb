import Stepwise.Proofs.Twins.Action
import Stepwise.Run.Methods

/-!
Operators, builtin functions and methods are tame.

One lemma for each of them: whatever values it is given within a bound, it gives back one within the
bound, and it does so in every namespace.
-/

namespace Stepwise.Run

open Script

theorem checked_fine (n : Option Int64) : Fine (fun _ => True) (checked n) := by
  cases n <;> trivial

theorem intOperation_fine (op : BinaryOp) (x y : Int64) :
    Fine (fun _ => True) (intOperation op x y) := by
  unfold intOperation
  cases op <;> dsimp only <;> repeat' split
  all_goals first | exact trivial | exact checked_fine _

theorem doubleOperation_fine (op : BinaryOp) (x y : Number.Double) :
    Fine (fun _ => True) (doubleOperation op x y) := by
  unfold doubleOperation
  cases op <;> dsimp only <;> repeat' split
  all_goals exact trivial

theorem numberOperation_fine (op : BinaryOp) (x y : Number) :
    Fine (fun _ => True) (numberOperation op x y) := by
  unfold numberOperation
  split
  · exact intOperation_fine op _ _
  · exact doubleOperation_fine op _ _

theorem negated_fine (number : Number) : Fine (fun _ => True) (negated number) := by
  cases number with
  | int value => exact checked_fine _
  | float value => trivial

theorem absolute_fine (number : Number) : Fine (fun _ => True) (absolute number) := by
  cases number with
  | int value => exact checked_fine _
  | float value => trivial

theorem toInteger_fine (rounding : Number.Rounding) (x : Float) :
    Fine (fun _ => True) (toInteger rounding x) := by
  unfold toInteger
  repeat' split
  all_goals first | exact trivial | exact checked_fine _

theorem rounded_fine (number : Number) (places : Option Int64) :
    Fine (fun _ => True) (rounded number places) := by
  unfold rounded
  repeat' split
  all_goals first | exact trivial | exact toInteger_fine _ _

namespace Action.Tame

variable {functions : Nat}

theorem number (result : Except RuntimeError Number) (fine : Fine (fun _ => True) result) :
    Tame functions (numberValue result) fun value => value.Within functions := by
  cases result with
  | ok number => cases number <;> exact pure trivial
  | error error => exact throw fine

theorem unary (op : UnaryOp) (operand : Value) :
    Tame functions (Run.unary op operand) fun value => value.Within functions := by
  unfold Run.unary
  cases op <;> dsimp only
  · split
    · exact number _ (negated_fine _)
    · exact typeError _ _
  · split
    · exact number (.ok _) trivial
    · exact typeError _ _
  · exact (truthy operand).sequence fun _ => pure trivial

theorem typesError {α : Type} {expected : α → Prop} (left right : Value)
    (problem : String → String → TypeProblem) :
    Tame functions (do
      let heap ← get
      MonadExcept.throw (.type (problem (left.typeName heap) (right.typeName heap))) : Action α)
      expected := by
  refine ⟨fun home heap _ => ?_, fun heap result after stored ended => ?_⟩
  · have first := typeName_rehomed home heap left
    have second := typeName_rehomed home heap right
    show some _ = some _
    simp only [first, second]
  · cases ended
    exact ⟨trivial, .refl stored⟩

theorem copies_within {items : List Value} (within : AllWithin functions items) (times : Nat) :
    AllWithin functions (copies times items) := by
  unfold copies
  split
  · exact nofun
  · intro item member
    obtain ⟨part, inside, met⟩ := List.mem_flatten.mp member
    rw [List.eq_of_mem_replicate inside] at met
    exact within item met

theorem copying {units times : Nat} {copy : Action Value} {expected : Value → Prop}
    (copied : Tame functions copy expected) :
    Tame functions (Run.copying units times copy) expected := by
  unfold Run.copying
  split
  · exact throw trivial
  split
  · exact broken
  · exact copied

theorem repeated {sequence count : Value} {action : Action Value}
    (within : sequence.Within functions) (made : repeated? sequence count = some action) :
    Tame functions action fun value => value.Within functions := by
  unfold repeated? at made
  split at made
  · cases made
    exact copying (pure trivial)
  · cases made
    exact (list _).bind fun items bound => copying (newList (copies_within bound _))
  · cases made
    exact copying (newTuple (copies_within (Value.within_tuple.mp within) _))
  · cases made

theorem concatenated {left right : Value} (leftWithin : left.Within functions)
    (rightWithin : right.Within functions) :
    Tame functions (Run.concatenated left right) fun value => value.Within functions := by
  unfold Run.concatenated
  split
  · exact pure trivial
  · rename_i a b
    have both : Tame functions (Action.observe fun heap => heap.list a ++ heap.list b)
        fun items => AllWithin functions items.toList := by
      refine observe (fun _ _ => rfl) fun heap holds => ?_
      rw [Array.toList_append]
      exact List.forall_mem_append.mpr ⟨holds.list a, holds.list b⟩
    exact both.bind fun items bound => newList bound
  · exact newTuple (List.forall_mem_append.mpr
      ⟨Value.within_tuple.mp leftWithin, Value.within_tuple.mp rightWithin⟩)
  · exact typesError _ _ .concatenation
  · exact typesError _ _ .concatenation
  · exact typesError _ _ .concatenation
  · exact typesError _ _ (.binary _)

theorem binary (op : BinaryOp) {left right : Value} (leftWithin : left.Within functions)
    (rightWithin : right.Within functions) :
    Tame functions (Run.binary op left right) fun value => value.Within functions := by
  unfold Run.binary
  split
  · exact number _ (numberOperation_fine _ _ _)
  · split
    · exact concatenated leftWithin rightWithin
    · split
      · rename_i made
        rcases Option.or_eq_some_iff.mp made with made | ⟨_, made⟩
        · exact repeated leftWithin made
        · exact repeated rightWithin made
      · exact typesError left right (.binary _)
    · exact typesError left right (.binary _)

theorem contains (depth : Nat) (container item : Value) :
    Tame functions (Run.contains depth container item) fun _ => True := by
  unfold Run.contains
  split
  · exact (list _).sequence fun items => anyEqual depth item items.toList
  · exact anyEqual depth item _
  · split
    · exact pure trivial
    · exact typeError _ _
  · exact (keyOf item).sequence fun key => (dict _).sequence fun entries => pure trivial
  · split <;> exact pure trivial
  · rename_i ref
    refine (glance fun home heap => Walk.left_rehomed home heap (.shared ref)).sequence fun left => ?_
    exact meets (fun candidate _ => equal depth candidate item) left trivial
  · exact typeError _ _

theorem comparison (depth : Nat) (op : Comparison) (left right : Value) :
    Tame functions (Run.comparison depth op left right) fun _ => True := by
  have ordered : ∀ accepted : List Ordering, Tame functions (do
      return ordered accepted
        (← Action.ask fun heap => Query.order heap depth op.spelling left right)) fun _ => True :=
    fun accepted => (order depth op.spelling left right).sequence fun _ => pure trivial
  unfold Run.comparison
  cases op with
  | equal => exact equal depth left right
  | notEqual => exact (equal depth left right).sequence fun _ => pure trivial
  | less | lessEqual | greater | greaterEqual => exact ordered _
  | member => exact contains depth right left
  | notMember => exact (contains depth right left).sequence fun _ => pure trivial
  | same | notSame => exact pure trivial

theorem indexOf (noun : String) (index : Value) :
    Tame functions (Run.indexOf noun index) fun _ => True := by
  unfold Run.indexOf
  split
  · exact pure trivial
  · exact typeError _ _

theorem itemAt {α : Type} {expected : α → Prop} (item : Option α) (problem : IndexProblem)
    (holds : ∀ found, item = some found → expected found) :
    Tame functions (Run.itemAt item problem) expected := by
  cases item with
  | none => exact throw trivial
  | some found => exact pure (holds found rfl)

theorem anyItemAt {α : Type} (item : Option α) (problem : IndexProblem) :
    Tame functions (Run.itemAt item problem) fun _ => True :=
  itemAt item problem fun _ _ => trivial

theorem item {container : Value} (within : container.Within functions) (index : Value) :
    Tame functions (Run.item container index) fun value => value.Within functions := by
  unfold Run.item
  split
  · refine (indexOf _ index).sequence fun i => (list _).bind fun items bound => ?_
    refine itemAt _ _ fun found met => ?_
    obtain ⟨position, _, present⟩ := Option.bind_eq_some_iff.mp met
    exact bound found (Array.mem_toList_iff.mpr (Array.mem_of_getElem? present))
  · refine (indexOf _ index).sequence fun i => itemAt _ _ fun found met => ?_
    obtain ⟨position, _, present⟩ := Option.bind_eq_some_iff.mp met
    exact Value.within_tuple.mp within found (List.mem_of_getElem? present)
  · split
    · exact typeError _ _
    · exact map _ (anyItemAt _ _) fun _ _ => trivial
  · refine (keyOf index).sequence fun key => (dict _).bind fun entries bound => ?_
    split
    · rename_i found
      exact pure (bound.get? found)
    · exact (render index).sequence fun _ => throw trivial
  · rename_i values
    have picked : ∀ position : Int, Tame functions
        (Value.int <$> Run.itemAt (values.get? position) .range) fun value =>
          value.Within functions :=
      fun position => map _ (anyItemAt _ _) fun _ _ => trivial
    refine (indexOf _ index).sequence fun i => ?_
    split
    · split
      · exact picked _
      · exact stop trivial
    · exact picked _
  · exact typeError _ _

theorem setItem {container index value : Value} (within : value.Within functions) :
    Tame functions (Run.setItem container index value) fun _ => True := by
  unfold Run.setItem
  split
  · rename_i ref
    refine (indexOf _ index).sequence fun i => (glance fun _ _ => rfl).sequence fun length => ?_
    refine (anyItemAt _ _).sequence fun i => modifyList ref fun items bound other member => ?_
    rw [Array.toList_setIfInBounds] at member
    rcases List.mem_or_eq_of_mem_set member with member | rfl
    · exact bound other member
    · exact within
  · exact (keyOf index).sequence fun key => modifyDict _ fun entries bound => bound.insert key within
  · exact typeError _ _

theorem sliceBound (bound : Option Value) : Tame functions (Run.sliceBound bound) fun _ => True := by
  unfold Run.sliceBound
  split
  · exact pure trivial
  · exact pure trivial
  · split
    · exact pure trivial
    · exact throw trivial

theorem sliceItems_within {items : Array Value} (within : AllWithin functions items.toList)
    (lower upper : Option Int) (step : Int) :
    AllWithin functions (sliceItems items lower upper step) := by
  intro item member
  obtain ⟨position, _, present⟩ := List.mem_filterMap.mp member
  exact within item (Array.mem_toList_iff.mpr (Array.mem_of_getElem? present))

theorem slice {container : Value} (within : container.Within functions)
    (lower upper step : Option Value) :
    Tame functions (Run.slice container lower upper step) fun value => value.Within functions := by
  refine (sliceBound lower).sequence fun lower => ?_
  refine (sliceBound upper).sequence fun upper => ?_
  refine (sliceBound step).sequence fun step => ?_
  refine barring trivial ?_
  split
  · exact (list _).bind fun items bound => newList (sliceItems_within bound _ _ _)
  · exact newTuple (sliceItems_within (Value.within_tuple.mp within) _ _ _)
  · exact pure trivial
  · split
    · exact pure trivial
    · exact throw trivial
  · exact typeError _ _

theorem noKeywords (function : String) (keywords : Keywords) :
    Tame functions (Run.noKeywords function keywords) fun _ => True := by
  cases keywords with
  | nil => exact pure trivial
  | cons keyword rest => exact throw trivial

theorem argumentCount (function : String) (given least : Nat) (most : Option Nat) :
    Tame functions (Run.argumentCount function given least most) fun _ => True := by
  unfold Run.argumentCount
  split
  · exact pure trivial
  · exact throw trivial

theorem integerArgument (value : Value) :
    Tame functions (Run.integerArgument value) fun _ => True := by
  unfold Run.integerArgument
  split
  · exact pure trivial
  · exact typeError _ _

theorem textArgument (function : String) (value : Value) :
    Tame functions (Run.textArgument function value) fun _ => True := by
  unfold Run.textArgument
  split
  · exact pure trivial
  · exact typeError _ _

end Action.Tame

end Stepwise.Run
