import Stepwise.Proofs.Ordering.Equality

/-!
The order of values without doubles.

Lists and tuples find the first items that differ by one relation and order them by another.  On values
that nest finitely deep and have no double in them, the two fit together: values have an order that goes
the other way when they change places, it is that of equal values exactly if they are equal, and `<` is
transitive.  Everything is shown for one more level of nesting from the levels below.
-/

namespace Stepwise

theorem orderText_eq (a b : String) : Value.orderText a b = compareOfLessAndEq a b := by
  unfold Value.orderText compareOfLessAndEq
  simp only [beq_iff_eq]

theorem orderText_swap (a b : String) : (Value.orderText a b).swap = Value.orderText b a := by
  rw [orderText_eq, orderText_eq]
  exact (compareOfLessAndEq_eq_swap String.le_antisymm String.le_total String.not_le).symm

theorem orderText_eq_iff {a b : String} : Value.orderText a b = .eq ↔ a = b := by
  rw [orderText_eq]
  exact compareOfLessAndEq_eq_eq String.le_refl String.not_le

theorem orderText_lt_iff {a b : String} : Value.orderText a b = .lt ↔ a < b := by
  rw [orderText_eq]
  exact compareOfLessAndEq_eq_lt

/-- The order of two values when they are compared less than `depth` deep, if they have one. -/
def Value.Ordered (heap : Heap) (depth : Nat) (a b : Value) (order : Option Ordering) : Prop :=
  Value.order heap depth a b = some (.ok order)

/-- The order of two lists of values whose items are compared less than `depth` deep. -/
def OrderedItems (heap : Heap) (depth : Nat) (as bs : List Value) (order : Option Ordering) : Prop :=
  Value.orderItems (Value.equal heap depth) (Value.order heap depth) as bs = some (.ok order)

inductive Rank.Ordered (heap : Heap) (depth : Nat) : Rank → Rank → Option Ordering → Prop where
  | integers (i j : Int64) :
      Ordered heap depth (.integer i) (.integer j) (some (compare i.toInt j.toInt))
  | texts (a b : String) :
      Ordered heap depth (.text a) (.text b) (some (Value.orderText a b))
  | items {inList : Bool} {as bs : List Value} {order : Option Ordering} :
      OrderedItems heap depth as bs order → Ordered heap depth (.items inList as) (.items inList bs) order

namespace Value

variable {heap : Heap} {depth : Nat} {a b c : Value} {order : Option Ordering}

theorem order_of_numbers {x y : Number} (first : a.number? = some x) (second : b.number? = some y) :
    Value.order heap (depth + 1) a b = some (.ok (x.order? y)) := by
  unfold Value.order
  rw [first, second]

theorem ordered_succ_iff (first : a.FloatFree heap (depth + 1))
    (second : b.FloatFree heap (depth + 1)) :
    Ordered heap (depth + 1) a b order ↔
      ∃ x y, a.rank? heap = some x ∧ b.rank? heap = some y ∧ x.Ordered heap depth y order := by
  constructor
  · unfold Ordered Value.order
    intro ordered
    split at ordered
    · next x y isNumber isNumberToo =>
        obtain ⟨i, rfl, ranked⟩ := first.number isNumber
        obtain ⟨j, rfl, rankedToo⟩ := second.number isNumberToo
        cases ordered
        exact ⟨_, _, ranked, rankedToo, .integers i j⟩
    split at ordered
    · cases ordered
      exact ⟨_, _, rfl, rfl, .texts _ _⟩
    · exact ⟨_, _, rfl, rfl, .items ordered⟩
    · exact ⟨_, _, rfl, rfl, .items ordered⟩
    · cases ordered
  · rintro ⟨x, y, isFirst, isSecond, ordered⟩
    cases ordered with
    | integers i j => exact order_of_numbers (number?_of_rank? isFirst) (number?_of_rank? isSecond)
    | texts s t =>
        rw [eq_str_of_rank? isFirst, eq_str_of_rank? isSecond]
        rfl
    | items ordered =>
        rcases exists_of_rank? isFirst with ⟨ref, rfl, rfl, rfl⟩ | ⟨tag, rfl, rfl⟩
        · obtain ⟨other, -, rfl, rfl⟩ | ⟨other, impossible, -⟩ := exists_of_rank? isSecond
          · exact ordered
          · cases impossible
        · obtain ⟨other, impossible, -⟩ | ⟨other, -, rfl⟩ := exists_of_rank? isSecond
          · cases impossible
          · exact ordered

end Value

/-- Order less than `depth` deep fits with equality on values without doubles. -/
structure Heap.Orders (heap : Heap) (depth : Nat) : Prop where
  swap : ∀ (a b : Value) (order : Option Ordering), a.FloatFree heap depth → b.FloatFree heap depth →
    Value.Ordered heap depth a b order →
    ∃ known : Ordering, order = some known ∧ Value.Ordered heap depth b a (some known.swap) ∧
      (known = .eq ↔ Value.Same heap depth a b)
  congr : ∀ (a b c : Value) (order : Option Ordering), a.FloatFree heap depth →
    b.FloatFree heap depth → c.FloatFree heap depth → Value.Same heap depth b c →
    Value.Ordered heap depth a b order → Value.Ordered heap depth a c order
  trans : ∀ a b c : Value, a.FloatFree heap depth → b.FloatFree heap depth →
    c.FloatFree heap depth → Value.Ordered heap depth a b (some .lt) →
    Value.Ordered heap depth b c (some .lt) → Value.Ordered heap depth a c (some .lt)

open Value

variable {heap : Heap} {depth : Nat}

theorem orderedItems_cons {a b : Value} {as bs : List Value} {order : Option Ordering}
    (first : a.FloatFree heap depth) (second : b.FloatFree heap depth) :
    OrderedItems heap depth (a :: as) (b :: bs) order ↔
      Same heap depth a b ∧ OrderedItems heap depth as bs order ∨
        ¬ Same heap depth a b ∧ Ordered heap depth a b order := by
  obtain ⟨answer, known⟩ := equal_answers first second
  rw [OrderedItems, orderItems, Same, known]
  cases answer with
  | true => simp [OrderedItems]
  | false => simp [Ordered]

namespace Heap.Orders

section

variable (equates : heap.Equates depth) (orders : heap.Orders depth)

include equates orders

theorem swap_items {as bs : List Value} {order : Option Ordering}
    (first : ∀ a ∈ as, a.FloatFree heap depth) (second : ∀ b ∈ bs, b.FloatFree heap depth)
    (ordered : OrderedItems heap depth as bs order) :
    ∃ known : Ordering, order = some known ∧ OrderedItems heap depth bs as (some known.swap) ∧
      (known = .eq ↔ List.Forall₂ (Same heap depth) as bs) := by
  induction as generalizing bs with
  | nil =>
      cases bs with
      | nil =>
          cases ordered
          exact ⟨.eq, rfl, rfl, by simp⟩
      | cons b bs =>
          cases ordered
          exact ⟨.lt, rfl, rfl, by simp⟩
  | cons a as inductionHypothesis =>
      cases bs with
      | nil =>
          cases ordered
          exact ⟨.gt, rfl, rfl, by simp⟩
      | cons b bs =>
          rw [List.forall_mem_cons] at first second
          rw [List.forall₂_cons]
          have turn := equates.symm a b first.1 second.1
          have turnBack := equates.symm b a second.1 first.1
          rcases (orderedItems_cons first.1 second.1).mp ordered with ⟨same, rest⟩ | ⟨differ, decided⟩
          · obtain ⟨known, isKnown, turned, isEqual⟩ := inductionHypothesis first.2 second.2 rest
            exact ⟨known, isKnown,
              (orderedItems_cons second.1 first.1).mpr (.inl ⟨turn same, turned⟩),
              isEqual.trans (and_iff_right same).symm⟩
          · obtain ⟨known, isKnown, turned, isEqual⟩ := orders.swap a b order first.1 second.1 decided
            refine ⟨known, isKnown,
              (orderedItems_cons second.1 first.1).mpr (.inr ⟨mt turnBack differ, turned⟩), ?_⟩
            exact iff_of_false (mt isEqual.mp differ) fun both => differ both.1

theorem congr_items {as bs cs : List Value} {order : Option Ordering}
    (first : ∀ a ∈ as, a.FloatFree heap depth) (second : ∀ b ∈ bs, b.FloatFree heap depth)
    (third : ∀ c ∈ cs, c.FloatFree heap depth) (same : List.Forall₂ (Same heap depth) bs cs)
    (ordered : OrderedItems heap depth as bs order) : OrderedItems heap depth as cs order := by
  induction same generalizing as with
  | nil => exact ordered
  | @cons b c bs cs head _ inductionHypothesis =>
      cases as with
      | nil => exact ordered
      | cons a as =>
          rw [List.forall_mem_cons] at first second third
          rw [orderedItems_cons first.1 second.1] at ordered
          rw [orderedItems_cons first.1 third.1]
          refine ordered.imp (fun ⟨same, rest⟩ => ?_) fun ⟨differ, decided⟩ => ?_
          · exact ⟨equates.trans a b c first.1 second.1 third.1 same head,
              inductionHypothesis first.2 second.2 third.2 rest⟩
          · have back := equates.symm b c second.1 third.1 head
            exact ⟨fun same => differ (equates.trans a c b first.1 third.1 second.1 same back),
              orders.congr a b c order first.1 second.1 third.1 head decided⟩

omit equates in
theorem not_same_of_lt {a b : Value} (first : a.FloatFree heap depth)
    (second : b.FloatFree heap depth) (less : Ordered heap depth a b (some .lt)) :
    ¬ Same heap depth a b := by
  obtain ⟨known, isKnown, -, isEqual⟩ := orders.swap a b _ first second less
  cases isKnown
  exact mt isEqual.mpr (by decide)

theorem lt_of_same_of_lt {a b c : Value} (first : a.FloatFree heap depth)
    (second : b.FloatFree heap depth) (third : c.FloatFree heap depth) (same : Same heap depth a b)
    (less : Ordered heap depth b c (some .lt)) : Ordered heap depth a c (some .lt) := by
  obtain ⟨known, isKnown, turned, -⟩ := orders.swap b c _ second third less
  cases isKnown
  have moved := orders.congr c b a _ third second first (equates.symm a b first second same) turned
  obtain ⟨known, isKnown, turned, -⟩ := orders.swap c a _ third first moved
  cases isKnown
  exact turned

theorem trans_items {as bs cs : List Value} (first : ∀ a ∈ as, a.FloatFree heap depth)
    (second : ∀ b ∈ bs, b.FloatFree heap depth) (third : ∀ c ∈ cs, c.FloatFree heap depth)
    (less : OrderedItems heap depth as bs (some .lt))
    (lessToo : OrderedItems heap depth bs cs (some .lt)) :
    OrderedItems heap depth as cs (some .lt) := by
  induction as generalizing bs cs with
  | nil =>
      cases cs with
      | nil => cases bs <;> cases lessToo
      | cons c cs => rfl
  | cons a as inductionHypothesis =>
      cases bs with
      | nil => cases less
      | cons b bs =>
          cases cs with
          | nil => cases lessToo
          | cons c cs =>
              rw [List.forall_mem_cons] at first second third
              rw [orderedItems_cons first.1 second.1] at less
              rw [orderedItems_cons second.1 third.1] at lessToo
              rw [orderedItems_cons first.1 third.1]
              have decided (less : Ordered heap depth a c (some .lt)) :
                  ¬ Same heap depth a c ∧ Ordered heap depth a c (some .lt) :=
                ⟨orders.not_same_of_lt first.1 third.1 less, less⟩
              rcases less with ⟨same, rest⟩ | ⟨-, less⟩ <;>
                rcases lessToo with ⟨sameToo, restToo⟩ | ⟨-, lessToo⟩
              · exact .inl ⟨equates.trans a b c first.1 second.1 third.1 same sameToo,
                  inductionHypothesis first.2 second.2 third.2 rest restToo⟩
              · exact .inr (decided (lt_of_same_of_lt equates orders first.1 second.1 third.1 same lessToo))
              · exact .inr (decided (orders.congr a b c _ first.1 second.1 third.1 sameToo less))
              · exact .inr (decided (orders.trans a b c first.1 second.1 third.1 less lessToo))

theorem swap_ranks {x y : Rank} {order : Option Ordering} (first : x.FloatFree heap depth)
    (second : y.FloatFree heap depth) (ordered : x.Ordered heap depth y order) :
    ∃ known : Ordering, order = some known ∧ y.Ordered heap depth x (some known.swap) ∧
      (known = .eq ↔ x.Alike (Same heap depth) y) := by
  cases ordered with
  | integers i j =>
      refine ⟨_, rfl, Int.compare_swap i.toInt j.toInt ▸ .integers j i, ?_⟩
      rw [Int.compare_eq_eq, Int64.toInt_inj]
      constructor
      · rintro rfl
        exact .integer i
      · rintro ⟨⟩
        rfl
  | texts s t =>
      refine ⟨_, rfl, orderText_swap s t ▸ .texts t s, ?_⟩
      rw [orderText_eq_iff]
      constructor
      · rintro rfl
        exact .text s
      · rintro ⟨⟩
        rfl
  | items ordered =>
      obtain ⟨known, isKnown, turned, isEqual⟩ := swap_items equates orders first second ordered
      refine ⟨known, isKnown, .items turned, isEqual.trans ⟨.items, fun alike => ?_⟩⟩
      cases alike with
      | items same => exact same

theorem congr_ranks {x y z : Rank} {order : Option Ordering} (first : x.FloatFree heap depth)
    (second : y.FloatFree heap depth) (third : z.FloatFree heap depth)
    (alike : y.Alike (Same heap depth) z) (ordered : x.Ordered heap depth y order) :
    x.Ordered heap depth z order := by
  cases alike with
  | integer | text => exact ordered
  | items same =>
      cases ordered with
      | items ordered => exact .items (congr_items equates orders first second third same ordered)

theorem trans_ranks {x y z : Rank} {order orderToo : Option Ordering}
    (first : x.FloatFree heap depth) (second : y.FloatFree heap depth)
    (third : z.FloatFree heap depth) (less : x.Ordered heap depth y order)
    (lessToo : y.Ordered heap depth z orderToo) (isLess : order = some .lt)
    (isLessToo : orderToo = some .lt) : x.Ordered heap depth z (some .lt) := by
  cases less with
  | integers i j =>
      cases lessToo with
      | integers _ k =>
          have below := Int.compare_eq_lt.mp (Option.some.inj isLess)
          have belowToo := Int.compare_eq_lt.mp (Option.some.inj isLessToo)
          rw [← Int.compare_eq_lt.mpr (Int.lt_trans below belowToo)]
          exact .integers i k
  | texts s t =>
      cases lessToo with
      | texts _ u =>
          have below := orderText_lt_iff.mp (Option.some.inj isLess)
          have belowToo := orderText_lt_iff.mp (Option.some.inj isLessToo)
          rw [← orderText_lt_iff.mpr (String.lt_trans below belowToo)]
          exact .texts s u
  | items less =>
      subst isLess
      cases lessToo with
      | items lessToo =>
          subst isLessToo
          exact .items (trans_items equates orders first second third less lessToo)

theorem succ : heap.Orders (depth + 1) where
  swap a b order first second ordered := by
    obtain ⟨x, y, isFirst, isSecond, ordered⟩ := (ordered_succ_iff first second).mp ordered
    obtain ⟨known, isKnown, turned, isEqual⟩ :=
      swap_ranks equates orders (first.rank isFirst) (second.rank isSecond) ordered
    refine ⟨known, isKnown, (ordered_succ_iff second first).mpr ⟨y, x, isSecond, isFirst, turned⟩, ?_⟩
    rw [same_succ_iff equates.refl first second, isEqual]
    refine ⟨.ranked isFirst isSecond, fun alike => ?_⟩
    obtain ⟨_, again, alike⟩ := alike.exists_rank isFirst
    cases isSecond.symm.trans again
    exact alike
  congr a b c order first second third same ordered := by
    obtain ⟨x, y, isFirst, isSecond, ordered⟩ := (ordered_succ_iff first second).mp ordered
    obtain ⟨z, isThird, alike⟩ :=
      ((same_succ_iff equates.refl second third).mp same).exists_rank isSecond
    exact (ordered_succ_iff first third).mpr ⟨x, z, isFirst, isThird,
      congr_ranks equates orders (first.rank isFirst) (second.rank isSecond) (third.rank isThird)
        alike ordered⟩
  trans a b c first second third less lessToo := by
    obtain ⟨x, y, isFirst, isSecond, less⟩ := (ordered_succ_iff first second).mp less
    obtain ⟨_, z, again, isThird, lessToo⟩ := (ordered_succ_iff second third).mp lessToo
    cases isSecond.symm.trans again
    exact (ordered_succ_iff first third).mpr ⟨x, z, isFirst, isThird,
      trans_ranks equates orders (first.rank isFirst) (second.rank isSecond) (third.rank isThird)
        less lessToo rfl rfl⟩

end

end Heap.Orders

/-- On values without doubles order and equality fit together, however deep the values nest. -/
theorem Heap.orders (heap : Heap) (depth : Nat) : heap.Orders depth := by
  induction depth with
  | zero =>
      exact ⟨fun _ _ _ free => free.elim, fun _ _ _ _ free => free.elim,
        fun _ _ _ free => free.elim⟩
  | succ depth inductionHypothesis => exact inductionHypothesis.succ (heap.equates depth)

theorem orderItems_answers {as bs : List Value} (first : ∀ a ∈ as, a.FloatFree heap depth)
    (second : ∀ b ∈ bs, b.FloatFree heap depth)
    (answers : ∀ a b : Value, a.FloatFree heap depth → b.FloatFree heap depth →
      ∃ result, Value.order heap depth a b = some result) :
    ∃ result, orderItems (equal heap depth) (Value.order heap depth) as bs = some result := by
  induction as generalizing bs with
  | nil => cases bs <;> exact ⟨_, rfl⟩
  | cons a as inductionHypothesis =>
      cases bs with
      | nil => exact ⟨_, rfl⟩
      | cons b bs =>
          rw [List.forall_mem_cons] at first second
          obtain ⟨answer, known⟩ := equal_answers first.1 second.1
          rw [orderItems, known]
          cases answer with
          | true => exact inductionHypothesis first.2 second.2
          | false => exact answers a b first.1 second.1

theorem Value.order_answers {a b : Value} (first : a.FloatFree heap depth)
    (second : b.FloatFree heap depth) : ∃ result, Value.order heap depth a b = some result := by
  induction depth generalizing a b with
  | zero => exact first.elim
  | succ depth inductionHypothesis =>
      unfold Value.order
      split
      · exact ⟨_, rfl⟩
      split
      · exact ⟨_, rfl⟩
      · exact orderItems_answers first second fun _ _ => inductionHypothesis
      · exact orderItems_answers first second fun _ _ => inductionHypothesis
      · exact ⟨_, rfl⟩

/-- Values that nest finitely deep and have no double in them can be compared.  If that gives an order,
the other way around it gives the reverse, and it is that of equal values exactly if the two are equal.
What is less than something less than a value is less than that value. -/
theorem Value.order_coherent {heap : Heap} {a b c : Value}
    (first : ∃ depth, a.FloatFree heap depth) (second : ∃ depth, b.FloatFree heap depth)
    (third : ∃ depth, c.FloatFree heap depth) :
    ∃ enough, ∀ depth, enough ≤ depth →
      (∃ result, Value.order heap depth a b = some result) ∧
      (∀ order, Value.order heap depth a b = some (.ok order) →
        ∃ known : Ordering, order = some known ∧
          Value.order heap depth b a = some (.ok (some known.swap)) ∧
          (known = .eq ↔ Value.equal heap depth a b = some true)) ∧
      (Value.order heap depth a b = some (.ok (some .lt)) →
        Value.order heap depth b c = some (.ok (some .lt)) →
        Value.order heap depth a c = some (.ok (some .lt))) := by
  obtain ⟨m, first⟩ := first
  obtain ⟨n, second⟩ := second
  obtain ⟨k, third⟩ := third
  refine ⟨max m (max n k), fun depth deep => ?_⟩
  replace first := first.mono (show m ≤ depth by omega)
  replace second := second.mono (show n ≤ depth by omega)
  replace third := third.mono (show k ≤ depth by omega)
  have orders := heap.orders depth
  exact ⟨order_answers first second, fun order => orders.swap a b order first second,
    orders.trans a b c first second third⟩

/-- Lists that start with equal dicts and numbers are in the order of the tuples behind, also where one
of these is shorter. -/
theorem Value.order_coherent_lists :
    let heap : Heap :=
      ⟨#[#[.dict 0, .int 1, .tuple 0 [.bool true, .str "x"]],
          #[.dict 1, .bool true, .tuple 1 [.int 1, .str "y"]],
          #[.dict 0, .int 1, .tuple 2 [.int 2]]],
        #[⟨[(.int 1, .str "a"), (.none, .none)], by decide⟩,
          ⟨[(.none, .none), (.bool true, .str "a")], by decide⟩],
        #[], #[], 3⟩
    ∃ enough, ∀ depth, enough ≤ depth →
      Value.order heap (depth + 3) (.list 0) (.list 2) = some (.ok (some .lt)) ∧
        Value.order heap (depth + 3) (.list 1) (.list 0) = some (.ok (some .gt)) ∧
        ¬ Value.equal heap (depth + 3) (.list 0) (.list 1) = some true := by
  intro heap
  have free : ∀ ref ∈ [0, 1, 2], (list ref).FloatFree heap 3 := by
    simp [FloatFree, Dict.FloatFree, Key.FloatFree, Heap.list, Heap.dict, heap]
  obtain ⟨enough, coherent⟩ :=
    order_coherent ⟨3, free 0 (by decide)⟩ ⟨3, free 1 (by decide)⟩ ⟨3, free 2 (by decide)⟩
  refine ⟨enough, fun depth deep => ?_⟩
  obtain ⟨-, swap, trans⟩ := coherent (depth + 3) (Nat.le_add_right_of_le deep)
  have below : Value.order heap (depth + 3) (.list 0) (.list 1) = some (.ok (some .lt)) := by rfl
  have belowToo : Value.order heap (depth + 3) (.list 1) (.list 2) = some (.ok (some .lt)) := by rfl
  obtain ⟨known, isKnown, turned, isEqual⟩ := swap _ below
  cases isKnown
  exact ⟨trans below belowToo, turned, mt isEqual.mpr (by decide)⟩

end Stepwise
