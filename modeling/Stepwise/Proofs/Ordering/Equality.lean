import Mathlib.Data.List.Forall2
import Stepwise.Proofs.Ordering.Tables
import Stepwise.Proofs.Ranges.Elements

/-!
Equality of values without doubles.

On values that nest finitely deep and have no double in them, equality always answers, and it is an
equivalence.  Everything is shown for one more level of nesting from the levels below.
-/

namespace Stepwise

/-- Whether a value nests less than `depth` deep and has no double in it, also not in the keys of its
dicts. -/
def Value.FloatFree (heap : Heap) : Nat → Value → Prop
  | 0, _ => False
  | _ + 1, .float _ => False
  | depth + 1, .list ref => ∀ item ∈ (heap.list ref).toList, FloatFree heap depth item
  | depth + 1, .tuple _ items => ∀ item ∈ items, FloatFree heap depth item
  | depth + 1, .dict ref =>
      (heap.dict ref).FloatFree ∧ ∀ entry ∈ (heap.dict ref).entries, FloatFree heap depth entry.2
  | _ + 1, _ => True

inductive Rank where
  | integer (value : Int64)
  | text (content : String)
  /-- The items of a list, or of a tuple. -/
  | items (inList : Bool) (items : List Value)

/-- Whether the items of a rank nest less than `depth` deep and have no double in them. -/
def Rank.FloatFree (heap : Heap) (depth : Nat) : Rank → Prop
  | .items _ values => ∀ value ∈ values, value.FloatFree heap depth
  | _ => True

def Value.rank? (heap : Heap) : Value → Option Rank
  | .bool value => some (.integer (Key.ofBool value))
  | .int value => some (.integer value)
  | .str content => some (.text content)
  | .list ref => some (.items true (heap.list ref).toList)
  | .tuple _ items => some (.items false items)
  | _ => Option.none

namespace Value

variable {heap : Heap} {depth : Nat} {a b c : Value}

theorem FloatFree.succ (free : a.FloatFree heap depth) : a.FloatFree heap (depth + 1) := by
  induction depth generalizing a with
  | zero => exact free.elim
  | succ depth inductionHypothesis =>
      cases a with
      | float number => exact free.elim
      | list ref => exact fun item inside => inductionHypothesis (free item inside)
      | tuple tag items => exact fun item inside => inductionHypothesis (free item inside)
      | dict ref => exact ⟨free.1, fun entry inside => inductionHypothesis (free.2 entry inside)⟩
      | _ => trivial

theorem FloatFree.mono {more : Nat} (grows : depth ≤ more) (free : a.FloatFree heap depth) :
    a.FloatFree heap more := by
  induction grows with
  | refl => exact free
  | step _ inductionHypothesis => exact inductionHypothesis.succ

/-- The only numbers among values without doubles are integers. -/
theorem FloatFree.number (free : a.FloatFree heap depth) {x : Number} (isNumber : a.number? = some x) :
    ∃ i, x = .int i ∧ a.rank? heap = some (.integer i) := by
  cases depth with
  | zero => exact free.elim
  | succ depth =>
      cases a with
      | bool value | int value =>
          cases isNumber
          exact ⟨_, rfl, rfl⟩
      | float value => exact free.elim
      | _ => cases isNumber

theorem number?_of_rank? {i : Int64} (ranked : a.rank? heap = some (.integer i)) :
    a.number? = some (.int i) := by
  cases a <;> cases ranked <;> rfl

theorem eq_str_of_rank? {content : String} (ranked : a.rank? heap = some (.text content)) :
    a = .str content := by
  cases a <;> cases ranked
  rfl

theorem exists_of_rank? {inList : Bool} {items : List Value}
    (ranked : a.rank? heap = some (.items inList items)) :
    (∃ ref, inList = true ∧ a = .list ref ∧ items = (heap.list ref).toList) ∨
      ∃ tag, inList = false ∧ a = .tuple tag items := by
  cases a with
  | list ref =>
      cases ranked
      exact .inl ⟨ref, rfl, rfl, rfl⟩
  | tuple tag items =>
      cases ranked
      exact .inr ⟨tag, rfl, rfl⟩
  | _ => cases ranked

theorem FloatFree.rank {x : Rank} (free : a.FloatFree heap (depth + 1))
    (ranked : a.rank? heap = some x) : x.FloatFree heap depth := by
  cases a with
  | bool | int | str =>
      cases ranked
      trivial
  | list | tuple =>
      cases ranked
      exact free
  | _ => cases ranked

end Value

/-- Whether two values are equal when they are compared less than `depth` deep. -/
def Value.Same (heap : Heap) (depth : Nat) (a b : Value) : Prop :=
  Value.equal heap depth a b = some true

section

variable {same : Value → Value → Prop}

/-- Ranks with the same integer, the same text, or items that are the same. -/
inductive Rank.Alike (same : Value → Value → Prop) : Rank → Rank → Prop where
  | integer (i : Int64) : Alike same (.integer i) (.integer i)
  | text (content : String) : Alike same (.text content) (.text content)
  | items {inList : Bool} {as bs : List Value} : List.Forall₂ same as bs →
      Alike same (.items inList as) (.items inList bs)

/-- What it takes for two values to be equal, if it is known which of the values inside are. -/
inductive Alike (heap : Heap) (same : Value → Value → Prop) : Value → Value → Prop where
  | ranked {a b : Value} {x y : Rank} : a.rank? heap = some x → b.rank? heap = some y →
      x.Alike same y → Alike heap same a b
  | none : Alike heap same .none .none
  | dict {a b : Nat} : (heap.dict a).size = (heap.dict b).size →
      (heap.dict a).Covers same (heap.dict b) → Alike heap same (.dict a) (.dict b)
  | function (ref : Nat) : Alike heap same (.function ref) (.function ref)
  | builtin (builtin : Builtin) : Alike heap same (.builtin builtin) (.builtin builtin)
  | range {a b : Range} : a.sameElements b = true → Alike heap same (.range a) (.range b)
  | iterator (ref : Nat) : Alike heap same (.iterator ref) (.iterator ref)

end

theorem Alike.exists_rank {heap : Heap} {same : Value → Value → Prop} {a b : Value} {x : Rank}
    (alike : Alike heap same a b) (ranked : a.rank? heap = some x) :
    ∃ y, b.rank? heap = some y ∧ x.Alike same y := by
  cases alike with
  | ranked isFirst isSecond alike =>
      cases ranked.symm.trans isFirst
      exact ⟨_, isSecond, alike⟩
  | _ => cases ranked

theorem allEqual_eq_true_iff {equal : Value → Value → Option Bool} {as bs : List Value} :
    allEqual equal as bs = some true ↔ List.Forall₂ (fun a b => equal a b = some true) as bs := by
  induction as generalizing bs with
  | nil => cases bs <;> simp [allEqual]
  | cons a as inductionHypothesis =>
      cases bs with
      | nil => simp [allEqual]
      | cons b bs =>
          rw [allEqual, List.forall₂_cons, ← inductionHypothesis]
          split
          · next same => simp [same]
          · next answer differs => exact ⟨fun isTrue => absurd isTrue differs, And.left⟩

theorem allFound_eq_true_iff {equal : Value → Value → Option Bool} {other : Dict Value}
    {entries : List (Key × Value)} :
    allFound equal other entries = some true ↔ ∀ entry ∈ entries,
      ∃ found, other.get? entry.1 = some found ∧ equal entry.2 found = some true := by
  induction entries with
  | nil => simp [allFound]
  | cons entry rest inductionHypothesis =>
      obtain ⟨key, value⟩ := entry
      rw [allFound, List.forall_mem_cons, ← inductionHypothesis]
      cases other.get? key with
      | none => simp
      | some found =>
          simp only [Option.some.injEq, exists_eq_left']
          split
          · next same => simp [same]
          · next answer differs => exact ⟨fun isTrue => absurd isTrue differs, And.left⟩

section

variable {equal : Value → Value → Option Bool}

theorem allEqual_answers {as bs : List Value}
    (answers : ∀ a ∈ as, ∀ b ∈ bs, ∃ answer, equal a b = some answer) :
    ∃ answer, allEqual equal as bs = some answer := by
  induction as generalizing bs with
  | nil => cases bs <;> exact ⟨_, rfl⟩
  | cons a as inductionHypothesis =>
      cases bs with
      | nil => exact ⟨_, rfl⟩
      | cons b bs =>
          rw [allEqual]
          split
          · exact inductionHypothesis fun item inside other insideToo =>
              answers item (List.mem_cons_of_mem a inside) other (List.mem_cons_of_mem b insideToo)
          · exact answers a List.mem_cons_self b List.mem_cons_self

theorem allFound_answers {other : Dict Value} {entries : List (Key × Value)}
    (answers : ∀ a ∈ entries, ∀ b ∈ other.entries, ∃ answer, equal a.2 b.2 = some answer) :
    ∃ answer, allFound equal other entries = some answer := by
  induction entries with
  | nil => exact ⟨_, rfl⟩
  | cons entry rest inductionHypothesis =>
      obtain ⟨key, value⟩ := entry
      rw [allFound]
      split
      · exact ⟨_, rfl⟩
      · next found known =>
          obtain ⟨stored, selected, rfl⟩ := Option.map_eq_some_iff.mp known
          split
          · exact inductionHypothesis fun entry inside =>
              answers entry (List.mem_cons_of_mem _ inside)
          · exact answers _ List.mem_cons_self stored (List.mem_of_find?_eq_some selected)

end

namespace Value

variable {heap : Heap} {depth : Nat} {a b c : Value}

/-- Values without doubles have an answer whether they are equal, if they are compared deep enough. -/
theorem equal_answers (first : a.FloatFree heap depth) (second : b.FloatFree heap depth) :
    ∃ answer, equal heap depth a b = some answer := by
  induction depth generalizing a b with
  | zero => exact first.elim
  | succ depth inductionHypothesis =>
      unfold equal equalBy
      split
      · exact ⟨_, rfl⟩
      -- Only lists, tuples and dicts ask for the values inside.
      split <;> try exact ⟨_, rfl⟩
      all_goals try dsimp only
      all_goals split_ifs <;> try exact ⟨_, rfl⟩
      · exact allEqual_answers fun item inside other insideToo =>
          inductionHypothesis (first item inside) (second other insideToo)
      · exact allEqual_answers fun item inside other insideToo =>
          inductionHypothesis (first item inside) (second other insideToo)
      · exact allFound_answers fun entry inside other insideToo =>
          inductionHypothesis (first.2 entry inside) (second.2 other insideToo)

theorem allEqual_iff_of_length {equal : Value → Value → Option Bool} {as bs : List Value} :
    (if as.length = bs.length then allEqual equal as bs else some false) = some true ↔
      List.Forall₂ (fun a b => equal a b = some true) as bs := by
  rw [← allEqual_eq_true_iff]
  split_ifs with lengths
  · exact Iff.rfl
  · simp only [Option.some.injEq, Bool.false_eq_true, false_iff, allEqual_eq_true_iff]
    exact fun alike => lengths alike.length_eq

theorem equal_of_numbers {x y : Number} (first : a.number? = some x) (second : b.number? = some y) :
    equal heap (depth + 1) a b = some (x.equal y) := by
  unfold equal equalBy
  rw [first, second]

section

variable (refl : ∀ v : Value, v.FloatFree heap depth → Same heap depth v v)

include refl

theorem same_lists {a b : Nat} (free : (list a).FloatFree heap (depth + 1)) :
    Same heap (depth + 1) (.list a) (.list b) ↔
      List.Forall₂ (Same heap depth) (heap.list a).toList (heap.list b).toList := by
  change (if a = b then some true else _) = some true ↔ _
  by_cases one : a = b
  · subst one
    rw [if_pos rfl]
    exact iff_of_true rfl (List.forall₂_same.mpr fun item inside => refl item (free item inside))
  · rw [if_neg one]
    exact allEqual_iff_of_length

theorem same_dicts {a b : Nat} (free : (dict a).FloatFree heap (depth + 1)) :
    Same heap (depth + 1) (.dict a) (.dict b) ↔
      (heap.dict a).size = (heap.dict b).size ∧
        (heap.dict a).Covers (Same heap depth) (heap.dict b) := by
  change (if a = b then some true else _) = some true ↔ _
  split_ifs with one sizes
  · subst one
    exact iff_of_true rfl
      ⟨rfl, .refl free.1 fun entry inside => refl entry.2 (free.2 entry inside)⟩
  · exact allFound_eq_true_iff.trans (and_iff_right sizes).symm
  · simp [sizes]

theorem same_succ_iff (first : a.FloatFree heap (depth + 1)) (second : b.FloatFree heap (depth + 1)) :
    Same heap (depth + 1) a b ↔ Alike heap (Same heap depth) a b := by
  constructor
  · intro same
    have opened := same
    unfold Same equal equalBy at opened
    split at opened
    · next x y isNumber isNumberToo =>
        obtain ⟨i, rfl, ranked⟩ := first.number isNumber
        obtain ⟨j, rfl, rankedToo⟩ := second.number isNumberToo
        have equals : i = j := eq_of_beq (Option.some.inj opened)
        exact .ranked ranked rankedToo (equals ▸ .integer i)
    split at opened
    · exact .none
    · exact .ranked rfl rfl (eq_of_beq (Option.some.inj opened) ▸ .text _)
    · exact .ranked rfl rfl (.items ((same_lists refl first).mp same))
    · exact .ranked rfl rfl (.items (allEqual_iff_of_length.mp opened))
    · obtain ⟨sizes, covers⟩ := (same_dicts refl first).mp same
      exact .dict sizes covers
    · exact eq_of_beq (Option.some.inj opened) ▸ .function _
    · exact eq_of_beq (Option.some.inj opened) ▸ .builtin _
    · exact .range (Option.some.inj opened)
    · exact eq_of_beq (Option.some.inj opened) ▸ .iterator _
    · cases opened
  · intro alike
    cases alike with
    | none => rfl
    | function ref | iterator ref => exact congrArg some (beq_self_eq_true ref)
    | builtin builtin => exact congrArg some (beq_self_eq_true builtin)
    | range same => exact congrArg some same
    | dict sizes covers => exact (same_dicts refl first).mpr ⟨sizes, covers⟩
    | ranked isFirst isSecond alike =>
        cases alike with
        | integer i =>
            exact (equal_of_numbers (number?_of_rank? isFirst) (number?_of_rank? isSecond)).trans
              (congrArg some (beq_self_eq_true i))
        | text content =>
            rw [eq_str_of_rank? isFirst, eq_str_of_rank? isSecond]
            exact congrArg some (beq_self_eq_true content)
        | items alike =>
            rcases exists_of_rank? isFirst with ⟨ref, rfl, rfl, rfl⟩ | ⟨tag, rfl, rfl⟩
            · obtain ⟨other, -, rfl, rfl⟩ | ⟨other, impossible, -⟩ := exists_of_rank? isSecond
              · exact (same_lists refl first).mpr alike
              · cases impossible
            · obtain ⟨other, impossible, -⟩ | ⟨other, -, rfl⟩ := exists_of_rank? isSecond
              · cases impossible
              · exact allEqual_iff_of_length.mpr alike

end

end Value

namespace Range

theorem sameElements_refl (a : Range) : a.sameElements a = true :=
  (sameElements_iff a a).mpr ⟨rfl, fun _ => rfl⟩

theorem sameElements_symm {a b : Range} (same : a.sameElements b = true) :
    b.sameElements a = true := by
  obtain ⟨elements, steps⟩ := (sameElements_iff a b).mp same
  have lengths := (elements_eq_iff.mp elements).1
  exact (sameElements_iff b a).mpr ⟨elements.symm, fun one => (steps (lengths.trans one)).symm⟩

theorem sameElements_trans {a b c : Range} (same : a.sameElements b = true)
    (sameToo : b.sameElements c = true) : a.sameElements c = true := by
  obtain ⟨elements, steps⟩ := (sameElements_iff a b).mp same
  obtain ⟨elementsToo, stepsToo⟩ := (sameElements_iff b c).mp sameToo
  have lengths := (elements_eq_iff.mp elements).1
  exact (sameElements_iff a c).mpr ⟨elements.trans elementsToo,
    fun one => (steps one).trans (stepsToo (lengths.symm.trans one))⟩

end Range

/-- Equality less than `depth` deep is an equivalence on values without doubles. -/
structure Heap.Equates (heap : Heap) (depth : Nat) : Prop where
  refl : ∀ a : Value, a.FloatFree heap depth → Value.Same heap depth a a
  symm : ∀ a b : Value, a.FloatFree heap depth → b.FloatFree heap depth → Value.Same heap depth a b →
    Value.Same heap depth b a
  trans : ∀ a b c : Value, a.FloatFree heap depth → b.FloatFree heap depth →
    c.FloatFree heap depth → Value.Same heap depth a b → Value.Same heap depth b c →
    Value.Same heap depth a c

namespace Heap.Equates

open Value

variable {heap : Heap} {depth : Nat}

section

variable (equates : heap.Equates depth)

include equates

theorem symm_items {as bs : List Value} (first : ∀ a ∈ as, a.FloatFree heap depth)
    (second : ∀ b ∈ bs, b.FloatFree heap depth) (same : List.Forall₂ (Same heap depth) as bs) :
    List.Forall₂ (Same heap depth) bs as := by
  induction same with
  | nil => exact .nil
  | cons head _ inductionHypothesis =>
      rw [List.forall_mem_cons] at first second
      exact .cons (equates.symm _ _ first.1 second.1 head) (inductionHypothesis first.2 second.2)

theorem trans_items {as bs cs : List Value} (first : ∀ a ∈ as, a.FloatFree heap depth)
    (second : ∀ b ∈ bs, b.FloatFree heap depth) (third : ∀ c ∈ cs, c.FloatFree heap depth)
    (same : List.Forall₂ (Same heap depth) as bs) (sameToo : List.Forall₂ (Same heap depth) bs cs) :
    List.Forall₂ (Same heap depth) as cs := by
  induction same generalizing cs with
  | nil => exact sameToo
  | cons head _ inductionHypothesis =>
      cases sameToo with
      | cons headToo rest =>
          rw [List.forall_mem_cons] at first second third
          exact .cons (equates.trans _ _ _ first.1 second.1 third.1 head headToo)
            (inductionHypothesis first.2 second.2 third.2 rest)

theorem symm_ranks {x y : Rank} (first : x.FloatFree heap depth) (second : y.FloatFree heap depth)
    (alike : x.Alike (Same heap depth) y) : y.Alike (Same heap depth) x := by
  cases alike with
  | integer i => exact .integer i
  | text content => exact .text content
  | items same => exact .items (equates.symm_items first second same)

theorem trans_ranks {x y z : Rank} (first : x.FloatFree heap depth) (second : y.FloatFree heap depth)
    (third : z.FloatFree heap depth) (alike : x.Alike (Same heap depth) y)
    (alikeToo : y.Alike (Same heap depth) z) : x.Alike (Same heap depth) z := by
  cases alike with
  | integer | text => exact alikeToo
  | items same =>
      cases alikeToo with
      | items sameToo => exact .items (equates.trans_items first second third same sameToo)

theorem alike_refl {a : Value} (free : a.FloatFree heap (depth + 1)) :
    Alike heap (Same heap depth) a a := by
  cases a with
  | none => exact .none
  | bool value | int value => exact .ranked rfl rfl (.integer _)
  | str content => exact .ranked rfl rfl (.text content)
  | float value => exact free.elim
  | list ref | tuple tag items =>
      exact .ranked rfl rfl (.items (List.forall₂_same.mpr fun item inside =>
        equates.refl item (free item inside)))
  | dict ref =>
      exact .dict rfl (.refl free.1 fun entry inside =>
        equates.refl entry.2 (free.2 entry inside))
  | function ref => exact .function ref
  | builtin builtin => exact .builtin builtin
  | range range => exact .range range.sameElements_refl
  | iterator ref => exact .iterator ref

theorem alike_symm {a b : Value} (first : a.FloatFree heap (depth + 1))
    (second : b.FloatFree heap (depth + 1)) (alike : Alike heap (Same heap depth) a b) :
    Alike heap (Same heap depth) b a := by
  cases alike with
  | none => exact .none
  | function ref => exact .function ref
  | builtin builtin => exact .builtin builtin
  | iterator ref => exact .iterator ref
  | range same => exact .range (Range.sameElements_symm same)
  | @dict a b sizes covers =>
      have turned := covers.turn sizes first.1 second.1
      refine .dict sizes.symm fun entry inside => ?_
      obtain ⟨found, known, same⟩ := turned entry inside
      obtain ⟨stored, present, rfl⟩ := Dict.mem_of_get? known
      exact ⟨stored.2, known,
        equates.symm _ _ (first.2 stored present) (second.2 entry inside) same⟩
  | ranked isFirst isSecond alike =>
      exact .ranked isSecond isFirst
        (equates.symm_ranks (first.rank isFirst) (second.rank isSecond) alike)

theorem alike_trans {a b c : Value} (first : a.FloatFree heap (depth + 1))
    (second : b.FloatFree heap (depth + 1)) (third : c.FloatFree heap (depth + 1))
    (alike : Alike heap (Same heap depth) a b) (alikeToo : Alike heap (Same heap depth) b c) :
    Alike heap (Same heap depth) a c := by
  cases alike with
  | none | function | builtin | iterator => exact alikeToo
  | range same =>
      cases alikeToo with
      | ranked isSecond => cases isSecond
      | range sameToo => exact .range (Range.sameElements_trans same sameToo)
  | @dict a b sizes covers =>
      cases alikeToo with
      | ranked isSecond => cases isSecond
      | @dict _ c sizesToo coversToo =>
          refine .dict (sizes.trans sizesToo) (covers.trans coversToo first.1 second.1 third.1
            fun entry present between inside last insideToo => ?_)
          exact equates.trans _ _ _ (first.2 entry present) (second.2 between inside)
            (third.2 last insideToo)
  | ranked isFirst isSecond alike =>
      cases alikeToo with
      | ranked again isThird alikeToo =>
          cases isSecond.symm.trans again
          exact .ranked isFirst isThird (equates.trans_ranks (first.rank isFirst)
            (second.rank isSecond) (third.rank isThird) alike alikeToo)
      | _ => cases isSecond

theorem succ : heap.Equates (depth + 1) where
  refl _ free := (same_succ_iff equates.refl free free).mpr (equates.alike_refl free)
  symm _ _ first second same :=
    (same_succ_iff equates.refl second first).mpr (equates.alike_symm first second
      ((same_succ_iff equates.refl first second).mp same))
  trans _ _ _ first second third same sameToo :=
    (same_succ_iff equates.refl first third).mpr (equates.alike_trans first second third
      ((same_succ_iff equates.refl first second).mp same)
      ((same_succ_iff equates.refl second third).mp sameToo))

end

end Heap.Equates

/-- Equality of values without doubles is an equivalence, however deep they nest. -/
theorem Heap.equates (heap : Heap) (depth : Nat) : heap.Equates depth := by
  induction depth with
  | zero =>
      exact ⟨fun _ free => free.elim, fun _ _ free => free.elim, fun _ _ _ free => free.elim⟩
  | succ depth inductionHypothesis => exact inductionHypothesis.succ

end Stepwise
