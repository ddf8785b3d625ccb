import Stepwise.Proofs.Filing
import Stepwise.Proofs.Ordering.Equality

/-!
The keys of values.

A value has a key if it is made of nothing but numbers, truth values, texts, `None` and tuples, and its
key has the same tree.  Keys are equal exactly if the values are, where not both hold a NaN.  Even so a
dict can miss a value that is equal to one of its keys: a look-up among several entries also wants the
two filed together.
-/

namespace Stepwise

/-- Whether a value is made of what keys are made of. -/
inductive Value.Keyable : Value → Prop where
  | none : Keyable .none
  | bool (value : Bool) : Keyable (.bool value)
  | int (value : Int64) : Keyable (.int value)
  | float (value : Number.Double) : Keyable (.float value)
  | str (content : String) : Keyable (.str content)
  | tuple (tag : Nat) {items : List Value} : (∀ item ∈ items, item.Keyable) →
      Keyable (.tuple tag items)

/-- Whether a value is a NaN, or a tuple with an item that holds one. -/
inductive Value.HoldsNaN : Value → Prop where
  | float {value : Number.Double} : value.isNaN = true → HoldsNaN (.float value)
  | tuple {tag : Nat} {items : List Value} {item : Value} : item ∈ items → item.HoldsNaN →
      HoldsNaN (.tuple tag items)

mutual

/-- The tree of a value: its tuples without what tells them from others with the same items. -/
def Value.untagged : Value → Value
  | .tuple _ items => .tuple 0 (untaggedItems items)
  | value => value

def untaggedItems : List Value → List Value
  | [] => []
  | item :: rest => item.untagged :: untaggedItems rest

end

namespace Value

theorem toKey_tuple_eq_ok_iff {tag : Nat} {items : List Value} {key : Key} :
    (tuple tag items).toKey = .ok key ↔ ∃ keys, toKeys items = .ok keys ∧ key = .tuple keys := by
  rw [toKey]
  cases toKeys items with
  | error part => exact ⟨nofun, nofun⟩
  | ok keys =>
      constructor
      · rintro ⟨⟩
        exact ⟨keys, rfl, rfl⟩
      · rintro ⟨_, ⟨⟩, rfl⟩
        rfl

theorem toKeys_cons_eq_ok_iff {item : Value} {rest : List Value} {keys : List Key} :
    toKeys (item :: rest) = .ok keys ↔
      ∃ key others, item.toKey = .ok key ∧ toKeys rest = .ok others ∧ keys = key :: others := by
  rw [toKeys]
  cases item.toKey with
  | error part => exact ⟨nofun, nofun⟩
  | ok key =>
      cases toKeys rest with
      | error part => exact ⟨nofun, nofun⟩
      | ok others =>
          constructor
          · rintro ⟨⟩
            exact ⟨key, others, rfl, rfl, rfl⟩
          · rintro ⟨_, _, ⟨⟩, ⟨⟩, rfl⟩
            rfl

mutual

theorem keyable_of_toKey {value : Value} {key : Key} (found : value.toKey = .ok key) :
    value.Keyable := by
  match value with
  | .none => exact .none
  | .bool value => exact .bool value
  | .int value => exact .int value
  | .float value => exact .float value
  | .str content => exact .str content
  | .tuple tag items =>
      obtain ⟨keys, inside, -⟩ := toKey_tuple_eq_ok_iff.mp found
      exact .tuple tag (keyable_of_toKeys inside)
  | .list _ | .dict _ | .function _ | .builtin _ | .range _ | .iterator _ => cases found

theorem keyable_of_toKeys {items : List Value} {keys : List Key} (found : toKeys items = .ok keys) :
    ∀ item ∈ items, item.Keyable := by
  match items with
  | [] => exact List.forall_mem_nil _
  | item :: rest =>
      obtain ⟨key, others, first, inside, -⟩ := toKeys_cons_eq_ok_iff.mp found
      exact List.forall_mem_cons.mpr ⟨keyable_of_toKey first, keyable_of_toKeys inside⟩

end

theorem exists_toKeys {items : List Value} (each : ∀ item ∈ items, ∃ key, item.toKey = .ok key) :
    ∃ keys, toKeys items = .ok keys := by
  induction items with
  | nil => exact ⟨[], rfl⟩
  | cons item rest inductionHypothesis =>
      obtain ⟨⟨key, first⟩, others⟩ := List.forall_mem_cons.mp each
      obtain ⟨keys, inside⟩ := inductionHypothesis others
      exact ⟨key :: keys, toKeys_cons_eq_ok_iff.mpr ⟨key, keys, first, inside, rfl⟩⟩

theorem Keyable.exists_toKey {value : Value} (keyable : value.Keyable) :
    ∃ key, value.toKey = .ok key := by
  induction keyable with
  | none | bool | int | float | str => exact ⟨_, rfl⟩
  | tuple tag _ inductionHypothesis =>
      obtain ⟨keys, inside⟩ := exists_toKeys inductionHypothesis
      exact ⟨.tuple keys, toKey_tuple_eq_ok_iff.mpr ⟨keys, inside, rfl⟩⟩

mutual

theorem untagged_toValue {value : Value} {key : Key} (found : value.toKey = .ok key) (heap : Heap) :
    (key.toValue heap).1.untagged = value.untagged := by
  match value with
  | .none | .bool _ | .int _ | .float _ | .str _ =>
      cases found
      rfl
  | .tuple tag items =>
      obtain ⟨keys, inside, rfl⟩ := toKey_tuple_eq_ok_iff.mp found
      exact congrArg (tuple 0) (untagged_keysToValues inside heap)
  | .list _ | .dict _ | .function _ | .builtin _ | .range _ | .iterator _ => cases found

theorem untagged_keysToValues {items : List Value} {keys : List Key}
    (found : toKeys items = .ok keys) (heap : Heap) :
    untaggedItems (keysToValues heap keys).1 = untaggedItems items := by
  match items with
  | [] =>
      cases found
      rfl
  | item :: rest =>
      obtain ⟨key, others, first, inside, rfl⟩ := toKeys_cons_eq_ok_iff.mp found
      exact congrArg₂ List.cons (untagged_toValue first heap) (untagged_keysToValues inside _)

end

end Value

mutual

theorem Key.toKey_toValue (heap : Heap) (key : Key) : (key.toValue heap).1.toKey = .ok key := by
  match key with
  | .none | .bool _ | .int _ | .float _ | .str _ => rfl
  | .tuple items => exact Value.toKey_tuple_eq_ok_iff.mpr ⟨items, toKeys_keysToValues heap items, rfl⟩

theorem toKeys_keysToValues (heap : Heap) (keys : List Key) :
    Value.toKeys (keysToValues heap keys).1 = .ok keys := by
  match keys with
  | [] => rfl
  | key :: rest =>
      exact Value.toKeys_cons_eq_ok_iff.mpr
        ⟨key, rest, key.toKey_toValue heap, toKeys_keysToValues _ rest, rfl⟩

end

/-- What equality answers about two values, given enough depth. -/
def Value.EqualityAnswers (heap : Heap) (a b : Value) (answer : Bool) : Prop :=
  ∃ enough, ∀ depth ≥ enough, Value.equal heap depth a b = some answer

namespace Value

variable {heap : Heap} {a b : Value}

theorem EqualityAnswers.of_succ {answer : Bool}
    (answers : ∀ depth, Value.equal heap (depth + 1) a b = some answer) :
    EqualityAnswers heap a b answer := by
  refine ⟨1, fun depth enough => ?_⟩
  obtain ⟨depth, rfl⟩ := Nat.exists_eq_add_of_le' enough
  exact answers depth

theorem EqualityAnswers.unique {answer other : Bool} (first : EqualityAnswers heap a b answer)
    (second : EqualityAnswers heap a b other) : answer = other := by
  obtain ⟨enough, answers⟩ := first
  obtain ⟨enoughToo, answersToo⟩ := second
  exact Option.some.inj ((answers _ (Nat.le_max_left _ _)).symm.trans
    (answersToo _ (Nat.le_max_right _ _)))

theorem EqualityAnswers.tuple {tag tagToo : Nat} {as bs : List Value} {answer : Bool}
    (answers : ∃ enough, ∀ depth ≥ enough, allEqual (Value.equal heap depth) as bs = some answer) :
    EqualityAnswers heap (.tuple tag as) (.tuple tagToo bs) answer := by
  obtain ⟨enough, answers⟩ := answers
  refine ⟨enough + 1, fun depth deep => ?_⟩
  obtain ⟨depth, rfl⟩ := Nat.exists_eq_add_of_le' (Nat.le_trans (Nat.le_add_left 1 enough) deep)
  have answered := answers depth (Nat.le_of_add_le_add_right deep)
  change (if as.length = bs.length then allEqual (Value.equal heap depth) as bs else some false) = _
  split
  · exact answered
  · next apart =>
      cases answer with
      | false => rfl
      | true => exact absurd (allEqual_eq_true_iff.mp answered).length_eq apart

mutual

/-- Values are equal exactly if their keys are, where not both hold a NaN. -/
theorem equalityAnswers_of_toKey {a b : Value} {k l : Key} (first : a.toKey = .ok k)
    (second : b.toKey = .ok l) (number : ¬ (a.HoldsNaN ∧ b.HoldsNaN)) :
    EqualityAnswers heap a b (k.equal l) := by
  match a with
  | .none | .bool _ | .int _ | .str _ =>
      cases first
      cases b with
      | none | bool | int | float | str =>
          cases second
          exact .of_succ fun _ => rfl
      | tuple tag bs =>
          obtain ⟨ls, -, rfl⟩ := toKey_tuple_eq_ok_iff.mp second
          exact .of_succ fun _ => rfl
      | _ => cases second
  | .float x =>
      cases first
      cases b with
      | none | bool | int | str =>
          cases second
          exact .of_succ fun _ => rfl
      | float y =>
          cases second
          -- Only here keys are told apart in another way than values.
          have apart : (x.isNaN && y.isNaN) = false := Bool.eq_false_iff.mpr fun both =>
            number ((Bool.and_eq_true _ _).mp both |>.imp .float .float)
          change EqualityAnswers heap (.float x) (.float y)
            ((x.isNaN && y.isNaN) || x.toFloat == y.toFloat)
          rw [apart, Bool.false_or]
          exact .of_succ fun _ => rfl
      | tuple tag bs =>
          obtain ⟨ls, -, rfl⟩ := toKey_tuple_eq_ok_iff.mp second
          exact .of_succ fun _ => rfl
      | _ => cases second
  | .tuple tag as =>
      obtain ⟨ks, inside, rfl⟩ := toKey_tuple_eq_ok_iff.mp first
      cases b with
      | none | bool | int | float | str =>
          cases second
          exact .of_succ fun _ => rfl
      | tuple tagToo bs =>
          obtain ⟨ls, insideToo, rfl⟩ := toKey_tuple_eq_ok_iff.mp second
          exact .tuple (allEqual_of_toKeys inside insideToo fun item isFirst other isSecond both =>
            number ⟨.tuple isFirst both.1, .tuple isSecond both.2⟩)
      | _ => cases second
  | .list _ | .dict _ | .function _ | .builtin _ | .range _ | .iterator _ => cases first

theorem allEqual_of_toKeys {as bs : List Value} {ks ls : List Key} (first : toKeys as = .ok ks)
    (second : toKeys bs = .ok ls)
    (number : ∀ a ∈ as, ∀ b ∈ bs, ¬ (a.HoldsNaN ∧ b.HoldsNaN)) :
    ∃ enough, ∀ depth ≥ enough,
      allEqual (Value.equal heap depth) as bs = some (Key.equalItems ks ls) := by
  match as, bs with
  | [], [] =>
      cases first
      cases second
      exact ⟨0, fun _ _ => rfl⟩
  | [], b :: bs =>
      obtain ⟨l, ls, -, -, rfl⟩ := toKeys_cons_eq_ok_iff.mp second
      cases first
      exact ⟨0, fun _ _ => rfl⟩
  | a :: as, [] =>
      obtain ⟨k, ks, -, -, rfl⟩ := toKeys_cons_eq_ok_iff.mp first
      cases second
      exact ⟨0, fun _ _ => rfl⟩
  | a :: as, b :: bs =>
      obtain ⟨k, ks, isKey, areKeys, rfl⟩ := toKeys_cons_eq_ok_iff.mp first
      obtain ⟨l, ls, isKeyToo, areKeysToo, rfl⟩ := toKeys_cons_eq_ok_iff.mp second
      obtain ⟨enough, answers⟩ := equalityAnswers_of_toKey isKey isKeyToo
        (number a List.mem_cons_self b List.mem_cons_self)
      obtain ⟨enoughToo, answersToo⟩ := allEqual_of_toKeys areKeys areKeysToo
        fun item isFirst other isSecond =>
          number item (List.mem_cons_of_mem a isFirst) other (List.mem_cons_of_mem b isSecond)
      refine ⟨max enough enoughToo, fun depth deep => ?_⟩
      rw [allEqual, answers depth (Nat.le_trans (Nat.le_max_left _ _) deep), Key.equalItems]
      cases k.equal l with
      | true => exact answersToo depth (Nat.le_trans (Nat.le_max_right _ _) deep)
      | false => rfl

end

end Value

namespace Value

/-- A dict has a value without a NaN if it has a key that is equal and filed together with it; a dict
with a single entry compares only. -/
theorem contains_iff_of_toKey {value : Value} {key : Key} (found : value.toKey = .ok key)
    (number : ¬ value.HoldsNaN) (heap : Heap) {α : Type} (dict : Dict α) :
    dict.contains key = true ↔ ∃ entry ∈ dict.entries,
      EqualityAnswers heap (entry.1.toValue heap).1 value true ∧
        (dict.size = 1 ∨ entry.1.Matches Number.FiledAlike key) := by
  have answers (stored : Key) : EqualityAnswers heap (stored.toValue heap).1 value true ↔
      stored.equal key = true := by
    have known : EqualityAnswers heap (stored.toValue heap).1 value (stored.equal key) :=
      equalityAnswers_of_toKey (stored.toKey_toValue heap) found fun both => number both.2
    exact ⟨fun same => known.unique same, fun same => same ▸ known⟩
  rw [Dict.contains_iff]
  refine exists_congr fun entry => and_congr_right fun _ => ?_
  rw [Dict.selects_eq_true_iff, answers]
  exact and_congr_right fun same => or_congr_right (Key.digest_eq_iff_of_equal same)

/-- Just the values made of what keys are made of have a key.  The value of a key has the tree of the
value that the key is of, and two values are equal exactly if their keys are, unless both hold a NaN.  A
dict has a value if it has a key that is equal, and among several entries also filed where the value
is. -/
theorem toKey_faithful (value : Value) :
    ((∃ key, value.toKey = .ok key) ↔ value.Keyable) ∧
      ∀ key, value.toKey = .ok key → ∀ heap : Heap,
        (key.toValue heap).1.untagged = value.untagged ∧
        (∀ other otherKey, other.toKey = .ok otherKey → ¬ (value.HoldsNaN ∧ other.HoldsNaN) →
          EqualityAnswers heap value other (key.equal otherKey)) ∧
        (¬ value.HoldsNaN → ∀ {α : Type} (dict : Dict α),
          dict.contains key = true ↔ ∃ entry ∈ dict.entries,
            EqualityAnswers heap (entry.1.toValue heap).1 value true ∧
              (dict.size = 1 ∨ entry.1.Matches Number.FiledAlike key)) :=
  ⟨⟨fun ⟨_, found⟩ => keyable_of_toKey found, Keyable.exists_toKey⟩, fun _ found heap =>
    ⟨untagged_toValue found heap, fun _ _ other => equalityAnswers_of_toKey found other,
      fun number _ => contains_iff_of_toKey found number heap⟩⟩

/-- A tuple is equal to one of two keys and yet is not found: one has the integer 2 ^ 63 - 1024 and the
other the double of this value, which is filed by its bits. -/
theorem toKey_faithful_large :
    let exact : Value := .tuple 0 [.int 1, .int 9223372036854774784]
    let key : Key := .tuple [.int 1, .int 9223372036854774784]
    let stored : Key := .tuple [.int 1, .float ⟨0x43DFFFFFFFFFFFFF⟩]
    let dict : Dict String := ⟨[(stored, "a"), (.int 0, "b")], by decide⟩
    (key.toValue .empty).1.untagged = exact.untagged ∧
      EqualityAnswers .empty (stored.toValue .empty).1 exact true ∧
      Dict.contains ⟨[(stored, "a")], by decide⟩ key = true ∧ dict.contains key = false := by
  intro exact key stored dict
  have number : ¬ exact.HoldsNaN := by
    change ¬ (Value.tuple 0 [.int 1, .int 9223372036854774784]).HoldsNaN
    rintro (_ | ⟨inside, isNaN⟩)
    simp only [List.mem_cons, List.not_mem_nil, or_false] at inside
    rcases inside with rfl | rfl <;> cases isNaN
  have same : stored.equal key = true := by decide +kernel
  obtain ⟨tree, -, membership⟩ := (toKey_faithful exact).2 key rfl .empty
  obtain ⟨-, equality, -⟩ := (toKey_faithful (stored.toValue .empty).1).2 stored rfl .empty
  have answers := same ▸ equality exact key rfl fun both => number both.2
  refine ⟨tree, answers, ?_, by decide +kernel⟩
  exact (membership number _).mpr ⟨(stored, "a"), List.mem_cons_self, answers, .inl rfl⟩

end Value

end Stepwise
