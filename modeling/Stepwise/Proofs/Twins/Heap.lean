import Stepwise.Proofs.Effects
import Stepwise.Proofs.Growth.Heap
import Stepwise.Record.Snapshot
import Stepwise.Value.Interchange

/-!
Heaps whose values refer to functions that exist, and heaps whose functions have another home.

`Value.Within` bounds the functions that a value refers to, and `Heap.Holds` says it of everything that
is stored.  Nothing that compares, writes or copies values looks at the home of a function, so it makes
no difference to any of them if the functions are `rehomed`.
-/

namespace Stepwise

mutual

/-- Every function that a value refers to has a number below a bound. -/
def Value.Within (functions : Nat) : Value → Prop
  | .function ref => ref < functions
  | .tuple _ items => Value.itemsWithin functions items
  | _ => True

def Value.itemsWithin (functions : Nat) : List Value → Prop
  | [] => True
  | item :: rest => item.Within functions ∧ Value.itemsWithin functions rest

end

/-- All of several values are within a bound. -/
abbrev AllWithin (functions : Nat) (values : List Value) : Prop :=
  ∀ value ∈ values, value.Within functions

/-- All values of a dict are within a bound. -/
abbrev Dict.Within (functions : Nat) (dict : Dict Value) : Prop :=
  ∀ entry ∈ dict.entries, entry.2.Within functions

theorem Value.itemsWithin_iff {functions : Nat} {items : List Value} :
    Value.itemsWithin functions items ↔ AllWithin functions items := by
  induction items with
  | nil => exact ⟨fun _ => nofun, fun _ => trivial⟩
  | cons item rest inductionHypothesis =>
      rw [AllWithin, List.forall_mem_cons]
      exact and_congr_right fun _ => inductionHypothesis

theorem Value.within_tuple {functions tag : Nat} {items : List Value} :
    (Value.tuple tag items).Within functions ↔ AllWithin functions items :=
  Value.itemsWithin_iff

mutual

theorem Value.Within.mono {functions more : Nat} (grows : functions ≤ more) {value : Value}
    (within : value.Within functions) : value.Within more := by
  cases value with
  | function ref => exact Nat.lt_of_lt_of_le within grows
  | tuple tag items => exact Value.itemsWithin_mono grows within
  | _ => trivial

theorem Value.itemsWithin_mono {functions more : Nat} (grows : functions ≤ more)
    {items : List Value} (within : Value.itemsWithin functions items) :
    Value.itemsWithin more items := by
  cases items with
  | nil => trivial
  | cons item rest => exact ⟨within.1.mono grows, Value.itemsWithin_mono grows within.2⟩

end

theorem AllWithin.mono {functions more : Nat} (grows : functions ≤ more) {values : List Value}
    (within : AllWithin functions values) : AllWithin more values :=
  fun value member => (within value member).mono grows

/-- A value picked from others is within their bound, and so is the absent value. -/
theorem AllWithin.getD {functions : Nat} {values : List Value} (within : AllWithin functions values)
    (index : Nat) : (values[index]?.getD .none).Within functions := by
  cases found : values[index]? with
  | none => trivial
  | some value => exact within value (List.mem_of_getElem? found)

theorem AllWithin.head {functions : Nat} {values : List Value} (within : AllWithin functions values) :
    (values.head?.getD .none).Within functions := by
  cases values with
  | nil => trivial
  | cons value rest => exact within value List.mem_cons_self

theorem AllWithin.sublist {functions : Nat} {values fewer : List Value}
    (within : AllWithin functions values) (included : fewer ⊆ values) : AllWithin functions fewer :=
  fun value member => within value (included member)

mutual

theorem Key.toValue_fst (functions : Nat) (heap : Heap) (key : Key) :
    (key.toValue heap).1.Within functions := by
  cases key with
  | tuple items => exact Value.itemsWithin_iff.mpr (keysToValues_fst functions heap items)
  | _ => trivial

theorem keysToValues_fst (functions : Nat) (heap : Heap) (keys : List Key) :
    AllWithin functions (keysToValues heap keys).1 := by
  cases keys with
  | nil => exact nofun
  | cons key rest =>
      exact List.forall_mem_cons.mpr
        ⟨key.toValue_fst functions heap, keysToValues_fst functions _ rest⟩

end

mutual

theorem Key.toValue_snd (heap : Heap) (key : Key) :
    (key.toValue heap).2 = { heap with nextTag := (key.toValue heap).2.nextTag } := by
  cases key with
  | tuple items =>
      have made := keysToValues_snd heap items
      simp only [Key.toValue, Heap.newTuple]
      rw [made]
  | _ => rfl

theorem keysToValues_snd (heap : Heap) (keys : List Key) :
    (keysToValues heap keys).2 = { heap with nextTag := (keysToValues heap keys).2.nextTag } := by
  cases keys with
  | nil => rfl
  | cons key rest =>
      have first := key.toValue_snd heap
      have others := keysToValues_snd (key.toValue heap).2 rest
      simp only [keysToValues]
      rw [others, first]

end

def Source.Within (functions : Nat) : Source → Prop
  | .items rest => AllWithin functions rest
  | _ => True

def Walk.Within (functions : Nat) : Walk → Prop
  | .own iterator => iterator.source.Within functions
  | .shared _ => True

structure Heap.Holds (functions : Nat) (heap : Heap) : Prop where
  lists : ∀ items ∈ heap.lists, AllWithin functions items.toList
  dicts : ∀ dict ∈ heap.dicts, dict.Within functions
  iterators : ∀ iterator ∈ heap.iterators, iterator.source.Within functions

theorem mem_of_lookup {α : Type} {entries : List (String × α)} {name : String} {value : α}
    (found : entries.lookup name = some value) : (name, value) ∈ entries := by
  obtain ⟨before, after, rfl, _⟩ := List.lookup_eq_some_iff.mp found
  exact List.mem_append_right _ List.mem_cons_self

structure FunctionObject.Sound (home functions made : Nat) (function : FunctionObject) : Prop where
  belongs : function.home = home
  known : function.id < functions
  defaults : AllWithin made function.defaults

structure Heap.Sound (home functions made : Nat) (heap : Heap) : Prop where
  holds : heap.Holds made
  size : heap.functions.size = made
  objects : ∀ function ∈ heap.functions, function.Sound home functions made

theorem forall_mem_modify {α : Type} {good : α → Prop} {items : Array α}
    (all : ∀ item ∈ items, good item) {change : α → α} (keeps : ∀ item, good item → good (change item))
    (index : Nat) : ∀ item ∈ items.modify index change, good item := by
  intro item member
  obtain ⟨place, inside, rfl⟩ := Array.mem_iff_getElem.mp member
  rw [Array.getElem_modify]
  split
  · exact keeps _ (all _ (Array.getElem_mem _))
  · exact all _ (Array.getElem_mem _)

theorem Source.Within.mono {functions more : Nat} (grows : functions ≤ more) {source : Source}
    (within : source.Within functions) : source.Within more := by
  cases source with
  | items rest => exact AllWithin.mono grows within
  | _ => trivial

theorem Walk.Within.mono {functions more : Nat} (grows : functions ≤ more) {walk : Walk}
    (within : walk.Within functions) : walk.Within more := by
  cases walk with
  | own iterator => exact Source.Within.mono grows within
  | shared ref => trivial

namespace Heap.Holds

variable {functions : Nat} {heap : Heap} (holds : heap.Holds functions)

theorem empty (functions : Nat) : Heap.empty.Holds functions :=
  ⟨fun _ member => absurd member (Array.not_mem_empty _),
    fun _ member => absurd member (Array.not_mem_empty _),
    fun _ member => absurd member (Array.not_mem_empty _)⟩

include holds

theorem mono {more : Nat} (grows : functions ≤ more) : heap.Holds more :=
  ⟨fun items member => AllWithin.mono grows (holds.lists items member),
    fun dict member entry inside => (holds.dicts dict member entry inside).mono grows,
    fun iterator member => (holds.iterators iterator member).mono grows⟩

theorem besides (objects : Array FunctionObject) (tags : Nat) :
    ({ heap with functions := objects, nextTag := tags } : Heap).Holds functions :=
  ⟨holds.lists, holds.dicts, holds.iterators⟩

theorem list (ref : Nat) : AllWithin functions (heap.list ref).toList := by
  unfold Heap.list
  cases found : heap.lists[ref]? with
  | none => exact nofun
  | some items => exact holds.lists items (Array.mem_of_getElem? found)

theorem dict (ref : Nat) : (heap.dict ref).Within functions := by
  unfold Heap.dict
  cases found : heap.dicts[ref]? with
  | none => exact nofun
  | some dict => exact holds.dicts dict (Array.mem_of_getElem? found)

theorem iterator (ref : Nat) : (heap.iterator ref).source.Within functions := by
  unfold Heap.iterator
  cases found : heap.iterators[ref]? with
  | none => exact nofun
  | some iterator => exact holds.iterators iterator (Array.mem_of_getElem? found)

theorem modifyList (ref : Nat) {change : Array Value → Array Value}
    (keeps : ∀ items, AllWithin functions items.toList → AllWithin functions (change items).toList) :
    (heap.modifyList ref change).Holds functions :=
  ⟨forall_mem_modify holds.lists keeps ref, holds.dicts, holds.iterators⟩

theorem modifyDict (ref : Nat) {change : Dict Value → Dict Value}
    (keeps : ∀ dict : Dict Value, dict.Within functions → (change dict).Within functions) :
    (heap.modifyDict ref change).Holds functions :=
  ⟨holds.lists, forall_mem_modify holds.dicts keeps ref, holds.iterators⟩

theorem setIterator (ref : Nat) (kind : IteratorKind) {source : Source}
    (within : source.Within functions) : (heap.setIterator ref ⟨kind, source⟩).Holds functions := by
  refine ⟨holds.lists, holds.dicts, fun other member => ?_⟩
  rcases Array.mem_or_eq_of_mem_setIfInBounds member with member | rfl
  · exact holds.iterators other member
  · exact within

theorem newList {items : Array Value} (within : AllWithin functions items.toList) :
    (heap.newList items).2.Holds functions :=
  ⟨Array.forall_mem_push.mpr ⟨within, holds.lists⟩, holds.dicts, holds.iterators⟩

theorem newDict {entries : Dict Value} (within : entries.Within functions) :
    (heap.newDict entries).2.Holds functions :=
  ⟨holds.lists, Array.forall_mem_push.mpr ⟨within, holds.dicts⟩, holds.iterators⟩

theorem newIterator {iterator : Iterator} (within : iterator.source.Within functions) :
    (heap.newIterator iterator).2.Holds functions :=
  ⟨holds.lists, holds.dicts, Array.forall_mem_push.mpr ⟨within, holds.iterators⟩⟩

end Heap.Holds

namespace Dict.Within

variable {functions : Nat} {dict : Dict Value} (within : dict.Within functions)

include within

theorem values : AllWithin functions dict.values := by
  intro value member
  obtain ⟨entry, inside, rfl⟩ := List.mem_map.mp member
  exact within entry inside

theorem get? {key : Key} {value : Value} (found : dict.get? key = some value) :
    value.Within functions := by
  obtain ⟨entry, met, rfl⟩ := Option.map_eq_some_iff.mp found
  exact within entry (List.mem_of_find?_eq_some met)

omit within in
theorem empty : Dict.empty.Within functions := nofun

omit within in
theorem setIn (key : Key) {value : Value} {entries : List (Key × Value)}
    (each : ∀ entry ∈ entries, entry.2.Within functions) (bound : value.Within functions) :
    ∀ entry ∈ Dict.setIn key value entries, entry.2.Within functions := by
  induction entries with
  | nil => exact List.forall_mem_singleton.mpr bound
  | cons entry rest inductionHypothesis =>
      obtain ⟨first, others⟩ := List.forall_mem_cons.mp each
      unfold Dict.setIn
      split
      · exact List.forall_mem_cons.mpr ⟨bound, others⟩
      · exact List.forall_mem_cons.mpr ⟨first, inductionHypothesis others⟩

theorem insert (key : Key) {value : Value} (bound : value.Within functions) :
    (dict.insert key value).Within functions := setIn key within bound

theorem insertAll {α : Type} {key : α → Key} {value : α → Value} {items : List α}
    (bounds : ∀ item ∈ items, (value item).Within functions) :
    (items.foldl (fun dict item => dict.insert (key item) (value item)) dict).Within functions := by
  induction items generalizing dict with
  | nil => exact within
  | cons item rest inductionHypothesis =>
      obtain ⟨first, others⟩ := List.forall_mem_cons.mp bounds
      rw [List.foldl_cons]
      exact inductionHypothesis (within.insert (key item) first) others

theorem erase (key : Key) : (dict.erase key).Within functions :=
  fun entry member => within entry (List.mem_of_mem_eraseP member)

end Dict.Within

/-- A heap after a step that stores only values within a bound and makes no function. -/
structure Heap.Keeps (functions : Nat) (heap after : Heap) : Prop where
  objects : after.functions = heap.functions
  holds : after.Holds functions
  evolves : heap.Evolves after

namespace Heap.Keeps

variable {functions : Nat} {heap middle after : Heap}

theorem refl (holds : heap.Holds functions) : heap.Keeps functions heap := ⟨rfl, holds, .refl heap⟩

theorem trans (first : heap.Keeps functions middle) (second : middle.Keeps functions after) :
    heap.Keeps functions after :=
  ⟨second.objects.trans first.objects, second.holds, first.evolves.trans second.evolves⟩

theorem newList (holds : heap.Holds functions) {items : Array Value}
    (within : AllWithin functions items.toList) : heap.Keeps functions (heap.newList items).2 :=
  ⟨rfl, holds.newList within, .newList heap items⟩

theorem newDict (holds : heap.Holds functions) {entries : Dict Value}
    (within : entries.Within functions) : heap.Keeps functions (heap.newDict entries).2 :=
  ⟨rfl, holds.newDict within, .newDict heap entries⟩

theorem newIterator (holds : heap.Holds functions) {iterator : Iterator}
    (within : iterator.source.Within functions) :
    heap.Keeps functions (heap.newIterator iterator).2 :=
  ⟨rfl, holds.newIterator within, .newIterator heap iterator⟩

theorem setIterator (holds : heap.Holds functions) (ref : Nat) {source : Source}
    (within : source.Within functions) (advances : (heap.iterator ref).source.Advances source) :
    heap.Keeps functions (heap.setIterator ref { heap.iterator ref with source := source }) :=
  ⟨rfl, holds.setIterator ref _ within, .setIterator heap advances⟩

theorem retag (holds : heap.Holds functions) (tags : Nat) :
    heap.Keeps functions { heap with nextTag := tags } :=
  ⟨rfl, holds.besides _ tags, .retag heap tags⟩

end Heap.Keeps

theorem FunctionObject.Sound.mono {home functions made more : Nat} (grows : made ≤ more)
    {function : FunctionObject} (sound : function.Sound home functions made) :
    function.Sound home functions more :=
  ⟨sound.belongs, sound.known, sound.defaults.mono grows⟩

theorem Heap.Sound.empty (home functions : Nat) : Heap.empty.Sound home functions 0 :=
  ⟨.empty 0, rfl, fun _ member => absurd member (Array.not_mem_empty _)⟩

theorem Heap.Sound.function {home functions made ref : Nat} {heap : Heap}
    (sound : heap.Sound home functions made) (inside : ref < made) :
    (heap.function ref).Sound home functions made := by
  rw [← sound.size] at inside
  unfold Heap.function
  rw [Array.getElem?_eq_getElem inside]
  exact sound.objects _ (Array.getElem_mem inside)

theorem Heap.Sound.withFunction {home functions made : Nat} {heap : Heap} {object : FunctionObject}
    (sound : heap.Sound home functions made) (fits : object.Sound home functions made) :
    (heap.newFunction object).2.Sound home functions (made + 1) := by
  have grows := Nat.le_succ made
  refine ⟨(sound.holds.besides _ _).mono grows, ?_, ?_⟩
  · simp only [Heap.newFunction, Array.size_push, sound.size]
  · refine Array.forall_mem_push.mpr ⟨fits.mono grows, fun function member => ?_⟩
    exact (sound.objects function member).mono grows

theorem Heap.Sound.after {home functions made : Nat} {heap after : Heap}
    (sound : heap.Sound home functions made) (kept : heap.Keeps made after) :
    after.Sound home functions made :=
  ⟨kept.holds, kept.objects ▸ sound.size, kept.objects ▸ sound.objects⟩

theorem rangeItems_within (functions : Nat) (step : Int64) (remaining : Nat) (next : Int64) :
    AllWithin functions (rangeItems step remaining next) := by
  induction remaining generalizing next with
  | zero => exact nofun
  | succ remaining inductionHypothesis =>
      exact List.forall_mem_cons.mpr ⟨trivial, inductionHypothesis _⟩

section

variable {functions : Nat} {heap : Heap} (holds : heap.Holds functions)

include holds

theorem Source.next?_within {source rest : Source} {item : Value} (within : source.Within functions)
    (met : source.next? heap = some (item, rest)) :
    item.Within functions ∧ rest.Within functions := by
  cases source with
  | items values =>
      cases values with
      | nil => cases met
      | cons value values =>
          cases met
          exact List.forall_mem_cons.mp within
  | list ref index =>
      obtain ⟨value, found, same⟩ := Option.map_eq_some_iff.mp met
      cases same
      exact ⟨holds.list ref _ (Array.mem_toList_iff.mpr (Array.mem_of_getElem? found)), trivial⟩
  | range next remaining step =>
      cases remaining with
      | zero => cases met
      | succ remaining =>
          cases met
          exact ⟨trivial, trivial⟩

theorem Source.drain_within {source : Source} (within : source.Within functions) :
    AllWithin functions (source.drain heap).1 ∧ (source.drain heap).2.Within functions := by
  cases source with
  | items values => exact ⟨within, nofun⟩
  | list ref index => exact ⟨(holds.list ref).sublist (List.drop_subset _ _), trivial⟩
  | range next remaining step => exact ⟨rangeItems_within functions step remaining next, trivial⟩

theorem Walk.next?_keeps {walk rest : Walk} {item : Value} {after : Heap}
    (within : walk.Within functions) (met : walk.next? heap = some (item, rest, after)) :
    item.Within functions ∧ rest.Within functions ∧ heap.Keeps functions after := by
  cases walk with
  | own iterator =>
      obtain ⟨⟨item, source⟩, found, same⟩ := Option.map_eq_some_iff.mp met
      cases same
      obtain ⟨bound, left⟩ := Source.next?_within holds within found
      exact ⟨bound, left, .refl holds⟩
  | shared ref =>
      obtain ⟨⟨item, source⟩, found, same⟩ := Option.map_eq_some_iff.mp met
      cases same
      obtain ⟨bound, left⟩ := Source.next?_within holds (holds.iterator ref) found
      exact ⟨bound, trivial, .setIterator holds ref left (Source.next?_advances found)⟩

theorem Walk.drain_keeps {walk : Walk} (within : walk.Within functions) :
    AllWithin functions (walk.drain heap).1 ∧ heap.Keeps functions (walk.drain heap).2 := by
  cases walk with
  | own iterator => exact ⟨(Source.drain_within holds within).1, .refl holds⟩
  | shared ref =>
      obtain ⟨bound, left⟩ := Source.drain_within holds (holds.iterator ref)
      exact ⟨bound, .setIterator holds ref left (Source.drain_advances heap _)⟩

theorem Walk.toValue_keeps {walk : Walk} (within : walk.Within functions) :
    (walk.toValue heap).1.Within functions ∧ heap.Keeps functions (walk.toValue heap).2 := by
  cases walk with
  | own iterator => exact ⟨trivial, .newIterator holds within⟩
  | shared ref => exact ⟨trivial, .refl holds⟩

theorem keysToValues_keeps (keys : List Key) :
    heap.Keeps functions (keysToValues heap keys).2 := by
  rw [keysToValues_snd]
  exact .retag holds _

theorem Key.toValue_keeps (key : Key) : heap.Keeps functions (key.toValue heap).2 := by
  rw [Key.toValue_snd]
  exact .retag holds _

theorem Value.walk?_keeps {value : Value} {walk : Walk} {after : Heap}
    (within : value.Within functions) (begun : value.walk? heap = some (walk, after)) :
    walk.Within functions ∧ heap.Keeps functions after := by
  cases value with
  | tuple tag items =>
      cases begun
      exact ⟨Value.within_tuple.mp within, .refl holds⟩
  | str content =>
      cases begun
      refine ⟨fun item member => ?_, .refl holds⟩
      obtain ⟨c, _, rfl⟩ := List.mem_map.mp member
      trivial
  | dict ref =>
      cases begun
      exact ⟨keysToValues_fst functions heap _, keysToValues_keeps holds _⟩
  | list ref | range values | iterator ref =>
      cases begun
      exact ⟨trivial, .refl holds⟩
  | _ => cases begun

theorem Value.items?_keeps {value : Value} {items : List Value} {after : Heap}
    (within : value.Within functions) (found : value.items? heap = some (items, after)) :
    AllWithin functions items ∧ heap.Keeps functions after := by
  obtain ⟨⟨walk, middle⟩, begun, drained⟩ := Option.map_eq_some_iff.mp found
  obtain ⟨bound, kept⟩ := Value.walk?_keeps holds within begun
  obtain ⟨all, keptToo⟩ := Walk.drain_keeps kept.holds bound
  rw [show walk.drain middle = (items, after) from drained] at all keptToo
  exact ⟨all, kept.trans keptToo⟩

end

theorem mem_canonicalMembers {α : Type} {members : List (String × α)} {member : String × α}
    (kept : member ∈ canonicalMembers members) : member ∈ members :=
  mem_lastMembers (List.mem_mergeSort.mp kept)

mutual

theorem Value.ofJson_keeps {functions : Nat} {heap : Heap} (holds : heap.Holds functions)
    (json : Json) : (Value.ofJson heap json).1.Within functions ∧
      heap.Keeps functions (Value.ofJson heap json).2 := by
  cases json with
  | array items =>
      obtain ⟨bound, kept⟩ := valuesOfJson_keeps holds items
      exact ⟨trivial, kept.trans (.newList kept.holds bound)⟩
  | object members =>
      obtain ⟨bound, kept⟩ := entriesOfJson_keeps holds members
      refine ⟨trivial, kept.trans (.newDict kept.holds fun entry member => ?_)⟩
      obtain ⟨source, chosen, rfl⟩ := List.mem_map.mp member
      exact bound source (mem_canonicalMembers chosen)
  | int value =>
      unfold Value.ofJson
      split <;> exact ⟨trivial, .refl holds⟩
  | _ => exact ⟨trivial, .refl holds⟩

theorem valuesOfJson_keeps {functions : Nat} {heap : Heap} (holds : heap.Holds functions)
    (items : List Json) : AllWithin functions (valuesOfJson heap items).1 ∧
      heap.Keeps functions (valuesOfJson heap items).2 := by
  cases items with
  | nil => exact ⟨nofun, .refl holds⟩
  | cons item rest =>
      obtain ⟨bound, kept⟩ := Value.ofJson_keeps holds item
      obtain ⟨others, keptToo⟩ := valuesOfJson_keeps kept.holds rest
      exact ⟨List.forall_mem_cons.mpr ⟨bound, others⟩, kept.trans keptToo⟩

theorem entriesOfJson_keeps {functions : Nat} {heap : Heap} (holds : heap.Holds functions)
    (members : List (String × Json)) :
    (∀ entry ∈ (entriesOfJson heap members).1, entry.2.Within functions) ∧
      heap.Keeps functions (entriesOfJson heap members).2 := by
  cases members with
  | nil => exact ⟨nofun, .refl holds⟩
  | cons member rest =>
      obtain ⟨key, item⟩ := member
      obtain ⟨bound, kept⟩ := Value.ofJson_keeps holds item
      obtain ⟨others, keptToo⟩ := entriesOfJson_keeps kept.holds rest
      exact ⟨List.forall_mem_cons.mpr ⟨bound, others⟩, kept.trans keptToo⟩

end

def Heap.rehomed (home : Nat) (heap : Heap) : Heap :=
  { heap with functions := heap.functions.map fun function => { function with home := home } }

section

variable (home : Nat) (heap : Heap)

theorem rehomed_function_name (ref : Nat) :
    ((heap.rehomed home).function ref).name = (heap.function ref).name := by
  unfold Heap.function Heap.rehomed
  rw [Array.getElem?_map]
  cases heap.functions[ref]? <;> rfl

theorem rehomed_function {heap : Heap} {ref : Nat} (inside : ref < heap.functions.size) :
    (heap.rehomed home).function ref = { heap.function ref with home := home } := by
  unfold Heap.function Heap.rehomed
  rw [Array.getElem?_map, Array.getElem?_eq_getElem inside]
  rfl

theorem rehomed_empty : Heap.empty.rehomed home = Heap.empty := by
  simp only [Heap.rehomed, Heap.empty, Array.map_empty]

theorem rehomed_of_home {heap : Heap} {home : Nat}
    (homes : ∀ function ∈ heap.functions, function.home = home) : heap.rehomed home = heap := by
  have same : (heap.functions.map fun function => { function with home := home }) =
      heap.functions := by
    refine (Array.map_congr_left fun function member => ?_).trans (Array.map_id heap.functions)
    rw [← homes function member]
    rfl
  unfold Heap.rehomed
  rw [same]

theorem typeName_rehomed (value : Value) :
    value.typeName (heap.rehomed home) = value.typeName heap := by
  cases value <;> rfl

theorem truthy_rehomed (value : Value) : value.truthy (heap.rehomed home) = value.truthy heap := by
  cases value <;> rfl

mutual

theorem Key.toValue_rehomed (heap : Heap) (key : Key) :
    key.toValue (heap.rehomed home) =
      ((key.toValue heap).1, (key.toValue heap).2.rehomed home) := by
  cases key with
  | tuple items =>
      simp only [Key.toValue, keysToValues_rehomed heap items]
      rfl
  | _ => rfl

theorem keysToValues_rehomed (heap : Heap) (keys : List Key) :
    keysToValues (heap.rehomed home) keys =
      ((keysToValues heap keys).1, (keysToValues heap keys).2.rehomed home) := by
  cases keys with
  | nil => rfl
  | cons key rest =>
      simp only [keysToValues, Key.toValue_rehomed heap key, keysToValues_rehomed _ rest]

end

theorem Walk.next?_rehomed (walk : Walk) :
    walk.next? (heap.rehomed home) =
      (walk.next? heap).map fun met => (met.1, met.2.1, met.2.2.rehomed home) := by
  cases walk <;> simp only [Walk.next?, Option.map_map] <;> rfl

theorem Walk.drain_rehomed (walk : Walk) :
    walk.drain (heap.rehomed home) = ((walk.drain heap).1, (walk.drain heap).2.rehomed home) := by
  cases walk <;> rfl

theorem Walk.toValue_rehomed (walk : Walk) :
    walk.toValue (heap.rehomed home) =
      ((walk.toValue heap).1, (walk.toValue heap).2.rehomed home) := by
  cases walk <;> rfl

theorem Walk.left_rehomed (walk : Walk) : walk.left (heap.rehomed home) = walk.left heap := by
  cases walk <;> rfl

theorem Value.walk?_rehomed (value : Value) :
    value.walk? (heap.rehomed home) =
      (value.walk? heap).map fun begun => (begun.1, begun.2.rehomed home) := by
  cases value with
  | dict ref =>
      have same : (heap.rehomed home).dict ref = heap.dict ref := rfl
      simp only [Value.walk?, same, keysToValues_rehomed, Option.map_some]
  | _ => rfl

theorem Value.items?_rehomed (value : Value) :
    value.items? (heap.rehomed home) =
      (value.items? heap).map fun found => (found.1, found.2.rehomed home) := by
  simp only [Value.items?, Value.walk?_rehomed, Option.map_map]
  congr 1
  funext begun
  exact Walk.drain_rehomed home begun.2 begun.1

theorem equal_rehomed (depth : Nat) : Value.equal (heap.rehomed home) depth = Value.equal heap depth := by
  induction depth with
  | zero => rfl
  | succ depth inductionHypothesis =>
      funext a b
      simp only [Value.equal, Value.equalBy, inductionHypothesis]
      rfl

theorem equalBeside_rehomed (held depth : Nat) :
    Value.equalBeside (heap.rehomed home) held depth = Value.equalBeside heap held depth := by
  induction depth with
  | zero => rfl
  | succ depth inductionHypothesis =>
      funext a b
      simp only [Value.equalBeside, Value.equalBy, inductionHypothesis]
      rfl

theorem order_rehomed (depth : Nat) : Value.order (heap.rehomed home) depth = Value.order heap depth := by
  induction depth with
  | zero => rfl
  | succ depth inductionHypothesis =>
      funext a b
      simp only [Value.order, inductionHypothesis, equal_rehomed]
      rfl

theorem renderIn_rehomed (depth : Nat) (active : List Open) :
    Value.renderIn (heap.rehomed home) depth active = Value.renderIn heap depth active := by
  induction depth generalizing active with
  | zero =>
      funext value
      cases value with
      | function ref => simp only [Value.renderIn, rehomed_function_name]
      | _ => rfl
  | succ depth inductionHypothesis =>
      funext value
      cases value with
      | function ref => simp only [Value.renderIn, rehomed_function_name]
      | list ref | dict ref | iterator ref =>
          simp only [Value.renderIn, inductionHypothesis]
          rfl
      | _ => simp only [Value.renderIn, inductionHypothesis]

theorem renderTo_rehomed (depth : Nat) (value : Value) :
    value.renderTo (heap.rehomed home) depth = value.renderTo heap depth := by
  simp only [Value.renderTo, renderIn_rehomed]

theorem render_rehomed (value : Value) : value.render (heap.rehomed home) = value.render heap :=
  renderTo_rehomed home heap renderDepth value

theorem display_rehomed (value : Value) :
    value.display (heap.rehomed home) = value.display heap := by
  cases value <;> first | rfl | exact render_rehomed home heap _

theorem captureIn_rehomed (limit levels : Nat) (active : List Open) :
    Record.captureIn (heap.rehomed home) limit levels active =
      Record.captureIn heap limit levels active := by
  induction levels generalizing active with
  | zero => rfl
  | succ levels inductionHypothesis =>
      funext value
      cases value <;> simp only [Record.captureIn, typeName_rehomed, inductionHypothesis] <;> rfl

theorem captureOrText_rehomed (depth : Nat) (value : Value) :
    Record.captureOrText (heap.rehomed home) depth value = Record.captureOrText heap depth value := by
  simp only [Record.captureOrText, Record.capture, captureIn_rehomed, renderTo_rehomed]

end

mutual

theorem Value.ofJson_rehomed (home : Nat) (heap : Heap) (json : Json) :
    Value.ofJson (heap.rehomed home) json =
      ((Value.ofJson heap json).1, (Value.ofJson heap json).2.rehomed home) := by
  cases json with
  | array items =>
      simp only [Value.ofJson, valuesOfJson_rehomed home heap items]
      rfl
  | object members =>
      simp only [Value.ofJson, entriesOfJson_rehomed home heap members]
      rfl
  | int value =>
      unfold Value.ofJson
      split <;> rfl
  | _ => rfl

theorem valuesOfJson_rehomed (home : Nat) (heap : Heap) (items : List Json) :
    valuesOfJson (heap.rehomed home) items =
      ((valuesOfJson heap items).1, (valuesOfJson heap items).2.rehomed home) := by
  cases items with
  | nil => rfl
  | cons item rest =>
      simp only [valuesOfJson, Value.ofJson_rehomed home heap item, valuesOfJson_rehomed home _ rest]

theorem entriesOfJson_rehomed (home : Nat) (heap : Heap) (members : List (String × Json)) :
    entriesOfJson (heap.rehomed home) members =
      ((entriesOfJson heap members).1, (entriesOfJson heap members).2.rehomed home) := by
  cases members with
  | nil => rfl
  | cons member rest =>
      obtain ⟨key, item⟩ := member
      simp only [entriesOfJson, Value.ofJson_rehomed home heap item,
        entriesOfJson_rehomed home _ rest]

end

end Stepwise
