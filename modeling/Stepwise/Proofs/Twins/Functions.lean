import Stepwise.Proofs.Twins.Builtins

/-!
Builtin functions and methods are tame.
-/

namespace Stepwise.Run

open Script

variable {functions : Nat}

abbrev KeywordsWithin (functions : Nat) (keywords : Keywords) : Prop :=
  ∀ keyword ∈ keywords, keyword.2.Within functions

theorem takeKeyword_within {keywords : Keywords} (within : KeywordsWithin functions keywords)
    (name : String) :
    (∀ value, (takeKeyword name keywords).1 = some value → value.Within functions) ∧
      KeywordsWithin functions (takeKeyword name keywords).2 := by
  refine ⟨fun value found => ?_, fun keyword member => within keyword (List.mem_of_mem_eraseP member)⟩
  exact within (name, value) (mem_of_lookup found)

theorem within_or {first second : Option Value}
    (firstWithin : ∀ value, first = some value → value.Within functions)
    (secondWithin : ∀ value, second = some value → value.Within functions) (value : Value)
    (found : first.or second = some value) : value.Within functions := by
  rcases Option.or_eq_some_iff.mp found with found | ⟨_, found⟩
  · exact firstWithin value found
  · exact secondWithin value found

theorem within_getElem? {values : List Value} (within : AllWithin functions values) (index : Nat)
    (value : Value) (found : values[index]? = some value) : value.Within functions :=
  within value (List.mem_of_getElem? found)

theorem within_getD {value : Option Value} (within : ∀ found, value = some found → found.Within functions)
    {default : Value} (otherwise : default.Within functions) : (value.getD default).Within functions := by
  cases value with
  | none => exact otherwise
  | some value => exact within value rfl

theorem withKeywords_within {entries : Dict Value} (within : entries.Within functions)
    {keywords : Keywords} (named : KeywordsWithin functions keywords) :
    (withKeywords entries keywords).Within functions :=
  within.insertAll named

namespace Action.Tame

theorem plainArguments (builtin : Builtin) (arguments : List Value) (keywords : Keywords)
    (least : Nat) (most : Option Nat) :
    Tame functions (Run.plainArguments builtin arguments keywords least most) fun _ => True :=
  (noKeywords _ _).sequence fun _ => argumentCount _ _ _ _

theorem lengthOf (value : Value) :
    Tame functions (Run.lengthOf value) fun value => value.Within functions := by
  unfold Run.lengthOf
  split
  · exact pure trivial
  · exact (glance fun _ _ => rfl).sequence fun _ => pure trivial
  · exact pure trivial
  · exact (glance fun _ _ => rfl).sequence fun _ => pure trivial
  · split
    · exact pure trivial
    · exact throw trivial
  · exact typeError _ _

theorem rangeOf (bounds : List Int64) :
    Tame functions (Run.rangeOf bounds) fun value => value.Within functions := by
  unfold Run.rangeOf
  split
  · exact pure trivial
  · exact pure trivial
  · split
    · exact throw trivial
    · exact pure trivial
  · exact pure trivial

theorem total {start : Value} (startWithin : start.Within functions) {items : List Value}
    (within : AllWithin functions items) :
    Tame functions (Run.total start items) fun value => value.Within functions :=
  foldlM startWithin fun item member _ bound => binary .add bound (within item member)

theorem readInteger_fine (text : List Char) (shown : String) (base : Int) :
    Fine (fun _ => True) (readInteger text shown base) := by
  unfold readInteger
  repeat' split
  all_goals trivial

theorem ofReading {result : Except RuntimeError Int64} (fine : Fine (fun _ => True) result) :
    Tame functions
      (match result with
        | .ok value => Pure.pure (Value.int value)
        | .error error => MonadExcept.throw error) fun value => value.Within functions := by
  cases result with
  | ok value => exact pure trivial
  | error error => exact throw fine

theorem toInt (arguments : List Value) (base : Option Value) :
    Tame functions (Run.toInt arguments base) fun value => value.Within functions := by
  unfold Run.toInt
  split
  · exact pure trivial
  · split
    · exact (integerArgument _).sequence fun base => ofReading (readInteger_fine _ _ _)
    · exact (given _).sequence fun base => ofReading (readInteger_fine _ _ _)
  · exact throw trivial
  · split
    · exact pure trivial
    · exact number _ (toInteger_fine _ _)
    · exact typeError _ _

theorem toDouble (arguments : List Value) :
    Tame functions (Run.toDouble arguments) fun value => value.Within functions := by
  unfold Run.toDouble
  split
  · exact pure trivial
  · split
    · exact pure trivial
    · exact throw trivial
  · split
    · exact pure trivial
    · exact typeError _ _

def pairOf (position : Nat) : List Value → Except RuntimeError (Value × Value)
  | [key, value] => .ok (key, value)
  | items => .error (.value (.updateLength position items.length))

theorem updatePair (position : Nat) {element : Value} (within : element.Within functions) :
    Tame functions (Run.updatePair position element) fun pair => pair.2.Within functions := by
  have refused : Tame functions
      (MonadExcept.throw (RuntimeError.type (.updateElement position)) : Action (Value × Value))
      fun pair => pair.2.Within functions := throw trivial
  refine ofItems within (pairOf position) (fun heap items after found => ?_) (fun heap none => ?_)
    (fun items bound => ?_) refused
  · simp only [Run.updatePair, found]
    unfold pairOf
    split <;> simp_all
  · simp only [Run.updatePair, none]
    rfl
  · unfold pairOf
    split
    · exact bound _ (List.mem_cons_of_mem _ List.mem_cons_self)
    · trivial

theorem updateWithPairs {entries : Dict Value} (entriesWithin : entries.Within functions)
    (position : Nat) {elements : List Value} (within : AllWithin functions elements) :
    Tame functions (Run.updateWithPairs entries position elements) fun entries =>
      entries.Within functions := by
  induction elements generalizing entries position with
  | nil => exact pure entriesWithin
  | cons element rest inductionHypothesis =>
      obtain ⟨first, others⟩ := List.forall_mem_cons.mp within
      refine (updatePair position first).bind fun pair bound => ?_
      refine (keyOf pair.1).sequence fun key => ?_
      exact inductionHypothesis (entriesWithin.insert key bound) (position + 1) others

theorem updated {entries : Dict Value} (entriesWithin : entries.Within functions) {source : Value}
    (within : source.Within functions) :
    Tame functions (Run.updated entries source) fun entries => entries.Within functions := by
  unfold Run.updated
  split
  · exact (dict _).bind fun others bound => pure (entriesWithin.insertAll bound)
  · exact (itemsOf within).bind fun items bound => updateWithPairs entriesWithin 0 bound

theorem reversedKind (value : Value) : Tame functions (Run.reversedKind value) fun _ => True := by
  unfold Run.reversedKind
  split
  all_goals first | exact pure trivial | exact typeError _ _

theorem numbered (start : Int) {items : List Value} (within : AllWithin functions items) :
    Tame functions (Run.numbered start items) fun pairs => AllWithin functions pairs := by
  induction items generalizing start with
  | nil => exact pure nofun
  | cons item rest inductionHypothesis =>
      obtain ⟨first, others⟩ := List.forall_mem_cons.mp within
      unfold Run.numbered
      split
      · exact throw trivial
      · rename_i number _
        have both : AllWithin functions [.int number, item] :=
          List.forall_mem_cons.mpr ⟨trivial, List.forall_mem_singleton.mpr first⟩
        refine (newTuple both).bind fun pair bound => ?_
        refine (inductionHypothesis (start + 1) others).bind fun pairs all => ?_
        exact pure (List.forall_mem_cons.mpr ⟨bound, all⟩)

theorem zipped {columns : List (List Value)}
    (within : ∀ column ∈ columns, AllWithin functions column) :
    Tame functions (Run.zipped columns) fun rows => AllWithin functions rows := by
  unfold Run.zipped
  split
  · exact pure nofun
  · refine mapM fun index _ => newTuple fun item member => ?_
    obtain ⟨column, inside, met⟩ := List.mem_filterMap.mp member
    exact within column inside item (List.mem_of_getElem? met)

theorem nextOf {iterator : Value} {default : Option Value}
    (within : ∀ value, default = some value → value.Within functions) :
    Tame functions (Run.nextOf iterator default) fun value => value.Within functions := by
  unfold Run.nextOf
  split
  · rename_i ref
    have walked : Walk.Within functions (.shared ref) := trivial
    refine (next walked).bind fun met bounds => ?_
    split
    · exact pure (bounds _ _ rfl).1
    · exact pure (within _ rfl)
    · exact throw trivial
  · exact typeError _ _

theorem codePoint (value : Value) :
    Tame functions (Run.codePoint value) fun value => value.Within functions := by
  unfold Run.codePoint
  split
  · split
    · exact pure trivial
    · exact throw trivial
  · exact typeError _ _

theorem ofCodePoint (code : Int) :
    Tame functions (Run.ofCodePoint code) fun value => value.Within functions := by
  unfold Run.ofCodePoint
  split
  · exact pure trivial
  · exact throw trivial

theorem roundingPlaces (places : Option Value) :
    Tame functions (Run.roundingPlaces places) fun _ => True := by
  unfold Run.roundingPlaces
  split
  · exact pure trivial
  · exact pure trivial
  · exact map some (integerArgument _) fun _ _ => trivial

theorem meetsTruth (want : Bool) {value : Value} (within : value.Within functions) :
    Tame functions (Run.meetsTruth want value) fun _ => True := by
  refine (walk within).bind fun walk bound => ?_
  refine (glance fun home heap => Walk.left_rehomed home heap walk).sequence fun left => ?_
  exact meets (fun item _ => (truthy item).sequence fun _ => pure trivial) left bound

theorem applyPlain (builtin : Builtin) {arguments : List Value}
    (within : AllWithin functions arguments) {keywords : Keywords}
    (named : KeywordsWithin functions keywords) :
    Tame functions (Run.applyPlain builtin arguments keywords) fun value => value.Within functions := by
  have first := within.head
  have checks : ∀ (builtin : Builtin) (least : Nat) (most : Option Nat) (keywords : Keywords)
      {next : Unit → Action Value},
      Tame functions (next ()) (fun value => value.Within functions) →
      Tame functions (Run.plainArguments builtin arguments keywords least most >>= next)
        fun value => value.Within functions :=
    fun builtin least most keywords _ rest => (plainArguments builtin _ _ _ _).sequence fun _ => rest
  cases builtin with
  | len => exact checks _ _ _ _ (lengthOf _)
  | range =>
      refine checks _ _ _ _ ?_
      exact (mapM fun argument _ => integerArgument argument).sequence fun bounds => rangeOf bounds
  | abs =>
      refine checks _ _ _ _ ?_
      split
      · exact number _ (absolute_fine _)
      · exact typeError _ _
  | sum =>
      obtain ⟨starts, others⟩ := takeKeyword_within named "start"
      have start := within_or starts (within_getElem? within 1)
      refine checks _ _ _ _ ?_
      split
      · exact throw trivial
      · have zero : (Value.int 0).Within functions := trivial
        exact (itemsOf first).bind fun items bound => total (within_getD start zero) bound
  | str =>
      refine checks _ _ _ _ ?_
      split
      · exact pure trivial
      · exact (display _).sequence fun _ => pure trivial
  | int => exact checks _ _ _ _ (toInt _ _)
  | float => exact checks _ _ _ _ (toDouble _)
  | bool =>
      refine checks _ _ _ _ ?_
      split
      · exact pure trivial
      · exact (truthy _).sequence fun _ => pure trivial
  | list =>
      refine checks _ _ _ _ ?_
      split
      · exact newList (List.forall_mem_nil _)
      · exact (itemsOf (within _ List.mem_cons_self)).bind fun items bound => newList bound
  | tuple =>
      refine checks _ _ _ _ ?_
      split
      · exact newTuple (List.forall_mem_nil _)
      · exact pure (within _ List.mem_cons_self)
      · exact (itemsOf (within _ List.mem_cons_self)).bind fun items bound => newTuple bound
  | dict =>
      have begun : Tame functions (Pure.pure Dict.empty) fun entries => entries.Within functions :=
        pure .empty
      refine (argumentCount _ _ _ _).sequence fun _ => ?_
      split
      · exact begun.bind fun entries bound => newDict (withKeywords_within bound named)
      · refine (updated .empty (within _ List.mem_cons_self)).bind fun entries bound => ?_
        exact newDict (withKeywords_within bound named)
  | reversed =>
      refine checks _ _ _ _ ?_
      refine (reversedKind _).sequence fun kind => (itemsOf first).bind fun items bound => ?_
      exact newIterator kind fun item member => bound item (List.mem_reverse.mp member)
  | enumerate =>
      have counted : ∀ start : Int64, Tame functions (do
          Action.newIterator .enumerate (← Run.numbered start.toInt
            (← Action.itemsOf (arguments.head?.getD .none)))) fun value => value.Within functions :=
        fun start => (itemsOf first).bind fun items bound =>
          (numbered start.toInt bound).bind fun pairs all => newIterator .enumerate all
      refine checks _ _ _ _ ?_
      split
      · exact (integerArgument _).sequence counted
      · exact (given _).sequence counted
  | zip =>
      refine (noKeywords _ _).sequence fun _ => ?_
      refine (mapM fun argument member => itemsOf (within argument member)).bind fun columns all => ?_
      exact (zipped all).bind fun rows bound => newIterator .zip bound
  | round =>
      refine checks _ _ _ _ ?_
      refine (roundingPlaces _).sequence fun places => ?_
      split
      · exact number _ (rounded_fine _ _)
      · exact typeError _ _
  | iter =>
      refine checks _ _ _ _ ?_
      refine (walk first).bind fun walk bound => ?_
      exact change (fun home heap => Walk.toValue_rehomed home heap walk)
        fun heap holds => Walk.toValue_keeps holds bound
  | next => exact checks _ _ _ _ (nextOf (within_getElem? within 1))
  | repr => exact checks _ _ _ _ ((render _).sequence fun _ => pure trivial)
  | ord => exact checks _ _ _ _ (codePoint _)
  | chr => exact checks _ _ _ _ ((integerArgument _).sequence fun code => ofCodePoint _)
  | any => exact checks _ _ _ _ ((meetsTruth true first).sequence fun _ => pure trivial)
  | all => exact checks _ _ _ _ ((meetsTruth false first).sequence fun _ => pure trivial)
  | print | min | max | sorted => exact pure trivial

end Action.Tame

end Stepwise.Run
