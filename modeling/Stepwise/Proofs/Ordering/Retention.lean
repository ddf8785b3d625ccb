import Mathlib.Logic.Relation
import Stepwise.Proofs.Literals.Datum
import Stepwise.Value.Compare

/-!
Comparing values on a heap that grows.

A value that has everything inside it on a heap is compared in the same way on every heap that retains
what that one holds.
-/

namespace Stepwise

namespace Value

/-- Whether a list or a dict is on a heap; other values are nowhere else. -/
def OnHeap (heap : Heap) : Value → Prop
  | .list ref => ref < heap.lists.size
  | .dict ref => ref < heap.dicts.size
  | _ => True

/-- The values that a value holds.  The keys of a dict are left out: no list or dict is inside them. -/
def parts (heap : Heap) : Value → List Value
  | .list ref => (heap.list ref).toList
  | .tuple _ items => items
  | .dict ref => (heap.dict ref).values
  | _ => []

/-- Whether a value and every list and dict inside it are on a heap, as are all that a run makes. -/
def Placed (heap : Heap) (value : Value) : Prop :=
  ∀ inner, Relation.ReflTransGen (fun outer part => part ∈ outer.parts heap) value inner →
    inner.OnHeap heap

end Value

open Value

variable {heap after : Heap} {value : Value}

theorem Heap.Retains.onHeap (keeps : heap.Retains after) (here : value.OnHeap heap) :
    value.OnHeap after := by
  cases value with
  | list ref =>
      exact (Array.getElem?_eq_some_iff.mp
        (keeps.lists ref _ (Array.getElem?_eq_getElem here))).1
  | dict ref =>
      exact (Array.getElem?_eq_some_iff.mp
        (keeps.dicts ref _ (Array.getElem?_eq_getElem here))).1
  | _ => trivial

theorem Heap.Retains.list_eq (keeps : heap.Retains after) {ref : Nat}
    (here : (Value.list ref).OnHeap heap) : after.list ref = heap.list ref := by
  have found := Array.getElem?_eq_getElem here
  rw [Heap.list, Heap.list, found, keeps.lists ref _ found]

theorem Heap.Retains.dict_eq (keeps : heap.Retains after) {ref : Nat}
    (here : (Value.dict ref).OnHeap heap) : after.dict ref = heap.dict ref := by
  have found := Array.getElem?_eq_getElem here
  rw [Heap.dict, Heap.dict, found, keeps.dicts ref _ found]

theorem Heap.Retains.parts_eq (keeps : heap.Retains after) (here : value.OnHeap heap) :
    value.parts after = value.parts heap := by
  cases value with
  | list ref => exact congrArg Array.toList (keeps.list_eq here)
  | dict ref => exact congrArg Dict.values (keeps.dict_eq here)
  | _ => rfl

namespace Value.Placed

theorem onHeap (placed : value.Placed heap) : value.OnHeap heap := placed value .refl

theorem part {item : Value} (placed : value.Placed heap) (inside : item ∈ value.parts heap) :
    item.Placed heap :=
  fun inner reached => placed inner (.head inside reached)

theorem of_onHeap (here : value.OnHeap heap) (single : value.parts heap = []) :
    value.Placed heap := by
  intro inner reached
  rcases Relation.ReflTransGen.cases_head reached with rfl | ⟨part, inside, -⟩
  · exact here
  · rw [single] at inside
    cases inside

theorem mono (placed : value.Placed heap) (keeps : heap.Retains after) : value.Placed after := by
  intro inner reached
  induction reached using Relation.ReflTransGen.head_induction_on with
  | refl => exact keeps.onHeap placed.onHeap
  | head inside _ inductionHypothesis =>
      rw [keeps.parts_eq placed.onHeap] at inside
      exact inductionHypothesis (placed.part inside)

end Value.Placed

theorem allEqual_congr {equal other : Value → Value → Option Bool} {as bs : List Value}
    (same : ∀ a ∈ as, ∀ b ∈ bs, equal a b = other a b) :
    allEqual equal as bs = allEqual other as bs := by
  induction as generalizing bs with
  | nil => cases bs <;> rfl
  | cons a as inductionHypothesis =>
      cases bs with
      | nil => rfl
      | cons b bs =>
          rw [allEqual, allEqual, same a List.mem_cons_self b List.mem_cons_self,
            inductionHypothesis fun item inside candidate insideToo =>
              same item (List.mem_cons_of_mem a inside) candidate (List.mem_cons_of_mem b insideToo)]

theorem allFound_congr {equal other : Value → Value → Option Bool} {dict : Dict Value}
    {entries : List (Key × Value)}
    (same : ∀ a ∈ entries, ∀ b ∈ dict.entries, equal a.2 b.2 = other a.2 b.2) :
    allFound equal dict entries = allFound other dict entries := by
  induction entries with
  | nil => rfl
  | cons entry rest inductionHypothesis =>
      obtain ⟨key, value⟩ := entry
      rw [allFound, allFound, inductionHypothesis fun entry inside =>
        same entry (List.mem_cons_of_mem _ inside)]
      cases found : dict.get? key with
      | none => rfl
      | some candidate =>
          obtain ⟨stored, selected, rfl⟩ := Option.map_eq_some_iff.mp found
          have known := same _ List.mem_cons_self stored (List.mem_of_find?_eq_some selected)
          simp only [known]

theorem orderItems_congr {equal other : Value → Value → Option Bool}
    {order orderToo : Value → Value → Option Value.OrderResult} {as bs : List Value}
    (same : ∀ a ∈ as, ∀ b ∈ bs, equal a b = other a b ∧ order a b = orderToo a b) :
    Value.orderItems equal order as bs = Value.orderItems other orderToo as bs := by
  induction as generalizing bs with
  | nil => cases bs <;> rfl
  | cons a as inductionHypothesis =>
      cases bs with
      | nil => rfl
      | cons b bs =>
          obtain ⟨known, knownToo⟩ := same a List.mem_cons_self b List.mem_cons_self
          rw [Value.orderItems, Value.orderItems, known, knownToo,
            inductionHypothesis fun item inside candidate insideToo =>
              same item (List.mem_cons_of_mem a inside) candidate (List.mem_cons_of_mem b insideToo)]

theorem Value.equalBy_congr {inner other : Value → Value → Option Bool} {a b : Value}
    (same : ∀ item ∈ a.parts heap, ∀ candidate ∈ b.parts heap,
      inner item candidate = other item candidate) :
    equalBy heap inner a b = equalBy heap other a b := by
  have items : allEqual inner (a.parts heap) (b.parts heap) =
      allEqual other (a.parts heap) (b.parts heap) := allEqual_congr same
  unfold equalBy
  split
  · rfl
  split
  case h_3 => exact congrArg (fun answer => ite _ _ (ite _ answer _)) items
  case h_4 => exact congrArg (fun answer => ite _ answer _) items
  case h_5 =>
    rw [allFound_congr fun entry inside candidate insideToo =>
      same entry.2 (List.mem_map_of_mem inside) candidate.2 (List.mem_map_of_mem insideToo)]
  all_goals rfl

namespace Heap.Retains

variable (keeps : heap.Retains after) {a b : Value}

include keeps

theorem equalBy_eq (inner : Value → Value → Option Bool) (first : a.OnHeap heap)
    (second : b.OnHeap heap) : equalBy after inner a b = equalBy heap inner a b := by
  unfold equalBy
  split
  · rfl
  split
  case h_3 => rw [keeps.list_eq first, keeps.list_eq second]
  case h_5 => rw [keeps.dict_eq first, keeps.dict_eq second]
  all_goals rfl

theorem equal_eq (depth : Nat) (first : a.Placed heap) (second : b.Placed heap) :
    Value.equal after depth a b = Value.equal heap depth a b := by
  induction depth generalizing a b with
  | zero => rfl
  | succ depth inductionHypothesis =>
      rw [Value.equal, Value.equal, keeps.equalBy_eq _ first.onHeap second.onHeap]
      exact equalBy_congr fun item inside other insideToo =>
        inductionHypothesis (first.part inside) (second.part insideToo)

theorem order_eq (depth : Nat) (first : a.Placed heap) (second : b.Placed heap) :
    Value.order after depth a b = Value.order heap depth a b := by
  induction depth generalizing a b with
  | zero => rfl
  | succ depth inductionHypothesis =>
      have items : Value.orderItems (Value.equal after depth) (Value.order after depth)
          (a.parts heap) (b.parts heap) =
          Value.orderItems (Value.equal heap depth) (Value.order heap depth)
            (a.parts heap) (b.parts heap) :=
        orderItems_congr fun item inside other insideToo =>
          ⟨keeps.equal_eq depth (first.part inside) (second.part insideToo),
            inductionHypothesis (first.part inside) (second.part insideToo)⟩
      unfold Value.order
      split
      · rfl
      split
      case h_2 =>
        rw [keeps.list_eq first.onHeap, keeps.list_eq second.onHeap]
        exact items
      case h_3 => exact items
      all_goals rfl

end Heap.Retains

end Stepwise
