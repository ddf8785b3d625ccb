import Stepwise.Proofs.Twins.Methods

/-!
Every step of the interpreter lets the heap grow, and moves iterators only forward.

A tame step does if all values are within a bound.  Values are finitely many, so there is always one.
-/

namespace Stepwise

open Run

mutual

theorem Value.exists_bound (value : Value) : ∃ bound, value.Within bound := by
  cases value with
  | function ref => exact ⟨ref + 1, Nat.lt_succ_self ref⟩
  | tuple tag items => exact Value.exists_itemsBound items
  | _ => exact ⟨0, trivial⟩

theorem Value.exists_itemsBound (items : List Value) : ∃ bound, Value.itemsWithin bound items := by
  cases items with
  | nil => exact ⟨0, trivial⟩
  | cons item rest =>
      obtain ⟨bound, within⟩ := item.exists_bound
      obtain ⟨restBound, others⟩ := Value.exists_itemsBound rest
      exact ⟨max bound restBound, within.mono (Nat.le_max_left _ _),
        Value.itemsWithin_mono (Nat.le_max_right _ _) others⟩

end

def Source.held : Source → List Value
  | .items rest => rest
  | _ => []

def Walk.held : Walk → List Value
  | .own iterator => iterator.source.held
  | .shared _ => []

def Heap.stored (heap : Heap) : List Value :=
  heap.lists.toList.flatMap Array.toList ++ heap.dicts.toList.flatMap Dict.values ++
    heap.iterators.toList.flatMap fun iterator => iterator.source.held

theorem Source.within_of_held {bound : Nat} {source : Source} (within : AllWithin bound source.held) :
    source.Within bound := by
  cases source with
  | items rest => exact within
  | _ => trivial

theorem Walk.within_of_held {bound : Nat} {walk : Walk} (within : AllWithin bound walk.held) :
    walk.Within bound := by
  cases walk with
  | own iterator => exact Source.within_of_held within
  | shared ref => trivial

theorem Heap.holds_of_stored {bound : Nat} {heap : Heap} (within : AllWithin bound heap.stored) :
    heap.Holds bound := by
  have inLists := within.sublist fun _ member => List.mem_append_left _ (List.mem_append_left _ member)
  have inDicts := within.sublist fun _ member => List.mem_append_left _ (List.mem_append_right _ member)
  have inIterators := within.sublist fun _ member => List.mem_append_right _ member
  refine ⟨fun items member value inside => ?_, fun dict member entry inside => ?_,
    fun iterator member => Source.within_of_held fun value inside => ?_⟩
  · exact inLists value (List.mem_flatMap.mpr ⟨items, Array.mem_toList_iff.mpr member, inside⟩)
  · have listed : entry.2 ∈ dict.values := List.mem_map_of_mem inside
    exact inDicts _ (List.mem_flatMap.mpr ⟨dict, Array.mem_toList_iff.mpr member, listed⟩)
  · exact inIterators value
      (List.mem_flatMap.mpr ⟨iterator, Array.mem_toList_iff.mpr member, inside⟩)

theorem Heap.exists_bound (heap : Heap) (values : List Value) :
    ∃ bound, heap.Holds bound ∧ AllWithin bound values := by
  obtain ⟨bound, within⟩ := Value.exists_itemsBound (heap.stored ++ values)
  have all := Value.itemsWithin_iff.mp within
  exact ⟨bound, Heap.holds_of_stored (all.sublist fun _ => List.mem_append_left _),
    all.sublist fun _ => List.mem_append_right _⟩

namespace Run.Action

variable {α β : Type}

/-- However an action ends, the heap has only grown, and its iterators have only moved forward. -/
def Grows (action : Action α) : Prop :=
  ∀ heap result after, action heap = some (result, after) → heap.Evolves after

namespace Grows

variable {action : Action α}

theorem ofTame {expected : Nat → α → Prop} (values : List Value)
    (tame : ∀ bound, AllWithin bound values → Tame bound action (expected bound)) :
    Grows action := by
  intro heap result after ended
  obtain ⟨bound, holds, within⟩ := heap.exists_bound values
  exact ((tame bound within).keeps heap result after holds ended).2.evolves

theorem ofValue {expected : Nat → α → Prop} (value : Value)
    (tame : ∀ bound, value.Within bound → Tame bound action (expected bound)) : Grows action :=
  ofTame [value] fun bound within => tame bound (within value List.mem_cons_self)

theorem ofPair {expected : Nat → α → Prop} (first second : Value)
    (tame : ∀ bound, first.Within bound → second.Within bound →
      Tame bound action (expected bound)) : Grows action :=
  ofTame [first, second] fun bound within =>
    tame bound (within first List.mem_cons_self)
      (within second (List.mem_cons_of_mem _ List.mem_cons_self))

theorem change {step : Heap → α × Heap} (grows : ∀ heap : Heap, heap.Evolves (step heap).2) :
    Grows (Action.change step) := by
  intro heap result after ended
  cases ended
  exact grows heap

theorem observe (look : Heap → α) : Grows (Action.observe look) := by
  intro heap result after ended
  cases ended
  exact .refl heap

theorem ask (query : Heap → Query α) : Grows (Action.ask query) := by
  intro heap result after ended
  obtain ⟨answer, -, same⟩ := Option.map_eq_some_iff.mp ended
  cases same
  exact .refl heap

theorem newList (items : List Value) : Grows (Action.newList items) :=
  change fun heap => .newList heap _

theorem newTuple (items : List Value) : Grows (Action.newTuple items) :=
  change fun heap => .retag heap _

theorem newDict (entries : Dict Value) : Grows (Action.newDict entries) :=
  change fun heap => .newDict heap entries

theorem newFunction (function : FunctionObject) :
    Grows (Action.change fun heap => heap.newFunction function) :=
  change fun heap => .newFunction heap function

theorem modifyList (ref : Nat) (change : Array Value → Array Value) :
    Grows (Action.update fun heap => heap.modifyList ref change) := by
  intro heap result after ended
  cases ended
  exact .modifyList heap ref change

theorem typeError (value : Value) (problem : String → TypeProblem) :
    Grows (Action.typeError value problem : Action α) :=
  ofTame [] fun bound _ =>
    (Tame.typeError value problem : Tame bound (Action.typeError value problem) fun _ => True)

theorem keyOf (value : Value) : Grows (Action.keyOf value) :=
  ofTame [] fun _ _ => .keyOf value

theorem walk (value : Value) : Grows (Action.walk value) :=
  ofValue value fun _ within => .walk within

theorem next (walk : Walk) : Grows (Action.next walk) :=
  ofTame walk.held fun _ within => .next (Walk.within_of_held within)

theorem itemsOf (value : Value) : Grows (Action.itemsOf value) :=
  ofValue value fun _ within => .itemsOf within

theorem unpacked (value : Value) (expected : Nat) : Grows (Run.unpacked value expected) :=
  ofValue value fun _ within => .unpacked within expected

theorem unary (op : Script.UnaryOp) (operand : Value) : Grows (Run.unary op operand) :=
  ofTame [] fun _ _ => .unary op operand

theorem binary (op : Script.BinaryOp) (left right : Value) : Grows (Run.binary op left right) :=
  ofPair left right fun _ leftWithin rightWithin => .binary op leftWithin rightWithin

theorem augmented (op : Script.BinaryOp) (current operand : Value) :
    Grows (Run.augmented op current operand) :=
  ofPair current operand fun _ currentWithin operandWithin =>
    .augmented op currentWithin operandWithin

theorem comparison (depth : Nat) (op : Script.Comparison) (left right : Value) :
    Grows (Run.comparison depth op left right) :=
  ofTame [] fun _ _ => .comparison depth op left right

theorem item (container index : Value) : Grows (Run.item container index) :=
  ofValue container fun _ within => .item within index

theorem setItem (container index value : Value) : Grows (Run.setItem container index value) :=
  ofValue value fun _ within => .setItem within

theorem slice (container : Value) (lower upper step : Option Value) :
    Grows (Run.slice container lower upper step) :=
  ofValue container fun _ within => .slice within lower upper step

theorem noKeywords (function : String) (keywords : Keywords) :
    Grows (Run.noKeywords function keywords) :=
  ofTame [] fun _ _ => .noKeywords function keywords

theorem argumentCount (function : String) (given least : Nat) (most : Option Nat) :
    Grows (Run.argumentCount function given least most) :=
  ofTame [] fun _ _ => .argumentCount function given least most

theorem plainArguments (builtin : Builtin) (arguments : List Value) (keywords : Keywords)
    (least : Nat) (most : Option Nat) :
    Grows (Run.plainArguments builtin arguments keywords least most) :=
  ofTame [] fun _ _ => .plainArguments builtin arguments keywords least most

theorem optionalText (parameter default : String) (argument : Option Value) :
    Grows (Run.optionalText parameter default argument) :=
  ofTame [] fun _ _ => .optionalText parameter default argument

theorem noAttribute (object : Value) (name : String) :
    Grows (Run.noAttribute object name : Action α) :=
  ofTame [] fun bound _ =>
    (Tame.noAttribute object name : Tame bound (Run.noAttribute object name) fun _ => True)

section

variable (arguments : List Value) (keywords : Keywords)

theorem ofArguments {expected : Nat → α → Prop}
    (tame : ∀ bound, AllWithin bound arguments → KeywordsWithin bound keywords →
      Tame bound action (expected bound)) : Grows action :=
  ofTame (arguments ++ keywords.map Prod.snd) fun bound within =>
    tame bound (within.sublist fun _ => List.mem_append_left _) fun keyword member =>
      within keyword.2 (List.mem_append_right _ (List.mem_map_of_mem member))

theorem applyPlain (builtin : Builtin) : Grows (Run.applyPlain builtin arguments keywords) :=
  ofArguments arguments keywords fun _ within named => .applyPlain builtin within named

theorem listMethod (depth ref : Nat) (method : String) :
    Grows (do
      Run.noKeywords method keywords
      Run.listMethod depth ref method arguments) :=
  ofTame arguments fun _ within =>
    (Tame.noKeywords method keywords).sequence fun _ => .listMethod depth ref method within

theorem dictMethod (ref : Nat) (method : String) :
    Grows (Run.dictMethod ref method arguments keywords) :=
  ofArguments arguments keywords fun _ within named => .dictMethod ref method within named

theorem strMethod (content method : String) :
    Grows (do
      Run.noKeywords method keywords
      Run.strMethod content method arguments) :=
  ofTame arguments fun _ within =>
    (Tame.noKeywords method keywords).sequence fun _ => .strMethod content method within

end

end Grows

end Run.Action

end Stepwise
