import Mathlib.Order.Defs.Unbundled
import Mathlib.Data.List.Basic
import Stepwise.Proofs.Ordering.Coherence
import Stepwise.Run.Sorting

/-!
Sorting by merging halves.

If `<` answers for any two scores and is a strict weak order on them, the entries come out in order, and
entries that tie stay in the order that they came in, in both directions.  Otherwise the sort may end
with an error, which then is that of comparing two of the scores.
-/

namespace Stepwise

open Run

namespace Run.Query

variable {α β : Type}

theorem bind_eq_throw {query : Query α} {next : α → Query β} {error : RuntimeError}
    (failed : query >>= next = throw error) :
    query = throw error ∨ ∃ value, query = pure value ∧ next value = throw error := by
  cases known : query with
  | none => rw [known] at failed; cases failed
  | some result =>
      rw [known] at failed
      cases result with
      | error problem =>
          cases failed
          exact .inl rfl
      | ok value => exact .inr ⟨value, rfl, failed⟩

theorem bind_eq_pure {query : Query α} {next : α → Query β} {answer : β}
    (answered : query >>= next = pure answer) :
    ∃ value, query = pure value ∧ next value = pure answer := by
  cases known : query with
  | none => rw [known] at answered; cases answered
  | some result =>
      rw [known] at answered
      cases result with
      | error problem => cases answered
      | ok value => exact ⟨value, rfl, answered⟩

theorem pure_ne_throw {value : α} {error : RuntimeError} :
    (pure value : Query α) ≠ throw error := nofun

theorem order_eq_pure_iff {heap : Heap} {depth : Nat} {op : String} {a b : Value}
    {order : Option Ordering} :
    Query.order heap depth op a b = pure order ↔ Value.Ordered heap depth a b order := by
  constructor
  · intro compared
    obtain ⟨result, found, compared⟩ := bind_eq_pure compared
    cases known : Value.order heap depth a b with
    | none => rw [ofAnswer, known] at found; cases found
    | some answer =>
        rw [ofAnswer, known] at found
        cases found
        cases result with
        | ok order =>
            cases compared
            exact known
        | error values => cases compared
  · intro known
    rw [Query.order, ofAnswer, show Value.order heap depth a b = _ from known]
    rfl

end Run.Query

/-- Whether a value is less than another; it is not if the two have no order. -/
def Value.lessThan (heap : Heap) (depth : Nat) (a b : Value) : Bool :=
  match Value.order heap depth a b with
  | some (.ok order) => order == some .lt
  | _ => false

def Value.ties (heap : Heap) (depth : Nat) (a b : Value) : Bool :=
  !a.lessThan heap depth b && !b.lessThan heap depth a

/-- Any two of several values can be compared by `<`, which is a strict weak order on them. -/
structure Ranked (heap : Heap) (depth : Nat) (scores : List Value) : Prop where
  compared : ∀ a ∈ scores, ∀ b ∈ scores, ∃ order, Query.order heap depth "<" a b = pure order
  weakOrder : IsStrictWeakOrder { score // score ∈ scores } fun a b =>
    a.1.lessThan heap depth b.1 = true

theorem Value.lessThan_iff {heap : Heap} {depth : Nat} {a b : Value} :
    a.lessThan heap depth b = true ↔ Ordered heap depth a b (some .lt) := by
  unfold lessThan Ordered
  split
  · next order known => simp [known]
  · next missing => exact iff_of_false Bool.false_ne_true fun known => missing _ known

theorem Value.lessThan_of_ordered {heap : Heap} {depth : Nat} {a b : Value} {order : Ordering}
    (known : Ordered heap depth a b (some order)) :
    a.lessThan heap depth b = true ↔ order = .lt := by
  rw [lessThan_iff, Ordered, show Value.order heap depth a b = _ from known]
  simp

theorem Ranked.of_floatFree {heap : Heap} {depth : Nat} {scores : List Value}
    (free : ∀ score ∈ scores, score.FloatFree heap depth)
    (ordered : ∀ a ∈ scores, ∀ b ∈ scores, ∃ order, Value.Ordered heap depth a b order) :
    Ranked heap depth scores := by
  have orders := heap.orders depth
  have equates := heap.equates depth
  -- Scores of which none is less than the other are those that are equal.
  have same_iff (a b : { score // score ∈ scores }) : Value.Same heap depth a.1 b.1 ↔
      ¬ a.1.lessThan heap depth b.1 = true ∧ ¬ b.1.lessThan heap depth a.1 = true := by
    obtain ⟨order, known⟩ := ordered a a.2 b b.2
    obtain ⟨order, rfl, turned, isEqual⟩ := orders.swap _ _ _ (free a a.2) (free b b.2) known
    rw [← isEqual, Value.lessThan_of_ordered known, Value.lessThan_of_ordered turned]
    cases order <;> decide
  refine ⟨fun a first b second => ?_, ?_⟩
  · obtain ⟨order, known⟩ := ordered a first b second
    exact ⟨order, Query.order_eq_pure_iff.mpr known⟩
  · exact
      { irrefl := fun a => ((same_iff a a).mp (equates.refl a (free a a.2))).1
        trans := fun a b c before behind => by
          rw [Value.lessThan_iff] at before behind ⊢
          exact orders.trans a b c (free a a.2) (free b b.2) (free c c.2) before behind
        incomp_trans := fun a b c before behind => (same_iff a c).mp
          (equates.trans a b c (free a a.2) (free b b.2) (free c c.2) ((same_iff a b).mpr before)
            ((same_iff b c).mpr behind)) }

namespace Run

namespace Query

variable {heap : Heap} {depth : Nat} {a b : Value}

theorem less_eq {order : Option Ordering} (compared : Query.order heap depth "<" a b = pure order) :
    less heap depth a b = pure (a.lessThan heap depth b) := by
  have known : Value.order heap depth a b = _ := order_eq_pure_iff.mp compared
  rw [less, compared, pure_bind, Value.lessThan, known]

theorem less_eq_throw {error : RuntimeError} (failed : less heap depth a b = throw error) :
    Query.order heap depth "<" a b = throw error := by
  rcases bind_eq_throw failed with failed | ⟨order, -, answered⟩
  · exact failed
  · exact absurd answered pure_ne_throw

end Query

namespace Scored

variable {heap : Heap} {depth : Nat} {descending : Bool}

def ahead (heap : Heap) (depth : Nat) (descending : Bool) (a b : Scored) : Bool :=
  if descending then b.score.lessThan heap depth a.score else a.score.lessThan heap depth b.score

def ties (heap : Heap) (depth : Nat) (a b : Scored) : Bool := a.score.ties heap depth b.score

theorem ties_iff (descending : Bool) {a b : Scored} :
    a.ties heap depth b = true ↔
      ¬ a.ahead heap depth descending b = true ∧ ¬ b.ahead heap depth descending a = true := by
  cases descending <;> simp [ties, Value.ties, ahead, and_comm]

section

variable {all : List Scored} (ranked : Ranked heap depth (all.map score))

include ranked

/-- Whichever way is up, the order that entries have to come in is a strict weak order. -/
theorem weakOrder_ahead (descending : Bool) :
    IsStrictWeakOrder { entry // entry ∈ all } fun a b =>
      a.1.ahead heap depth descending b.1 = true := by
  have ascending := ranked.weakOrder
  let scoreOf (entry : { entry // entry ∈ all }) : { value // value ∈ all.map score } :=
    ⟨entry.1.score, List.mem_map_of_mem entry.2⟩
  let less := Function.onFun (fun a b => a.1.lessThan heap depth b.1 = true) scoreOf
  cases descending with
  | false => exact inferInstanceAs (IsStrictWeakOrder _ less)
  | true => exact inferInstanceAs (IsStrictWeakOrder _ (Function.swap less))

theorem ahead_irrefl {entry : Scored} (member : entry ∈ all) :
    entry.ahead heap depth descending entry = false :=
  Bool.eq_false_iff.mpr ((weakOrder_ahead ranked descending).irrefl ⟨entry, member⟩)

variable {a b c : Scored} (first : a ∈ all) (second : b ∈ all) (third : c ∈ all)

include first second

theorem ahead_asymm (before : a.ahead heap depth descending b = true) :
    b.ahead heap depth descending a = false := by
  have order := weakOrder_ahead ranked descending
  rw [Bool.eq_false_iff]
  intro behind
  exact order.irrefl ⟨a, first⟩ (order.trans ⟨a, first⟩ ⟨b, second⟩ ⟨a, first⟩ before behind)

theorem goesFirst_eq :
    goesFirst heap depth descending a b = pure (b.ahead heap depth descending a) := by
  have isScore {entry : Scored} (member : entry ∈ all) : entry.score ∈ all.map Scored.score :=
    List.mem_map_of_mem member
  obtain ⟨_, upwards⟩ := ranked.compared _ (isScore first) _ (isScore second)
  obtain ⟨_, downwards⟩ := ranked.compared _ (isScore second) _ (isScore first)
  cases descending with
  | true => exact Query.less_eq upwards
  | false => exact Query.less_eq downwards

include third

theorem ties_trans (before : a.ties heap depth b = true) (behind : b.ties heap depth c = true) :
    a.ties heap depth c = true := by
  have order := weakOrder_ahead ranked false
  rw [ties_iff false] at before behind ⊢
  exact order.incomp_trans ⟨a, first⟩ ⟨b, second⟩ ⟨c, third⟩ before behind

theorem ahead_or_ahead (before : a.ahead heap depth descending c = true) :
    a.ahead heap depth descending b = true ∨ b.ahead heap depth descending c = true := by
  have order := weakOrder_ahead ranked descending
  by_contra neither
  obtain ⟨notBehind, notAhead⟩ := not_or.mp neither
  have left : a.ties heap depth b = true := (ties_iff descending).mpr ⟨notBehind, fun turned =>
    notAhead (order.trans ⟨b, second⟩ ⟨a, first⟩ ⟨c, third⟩ turned before)⟩
  have right : b.ties heap depth c = true := (ties_iff descending).mpr ⟨notAhead, fun turned =>
    notBehind (order.trans ⟨a, first⟩ ⟨c, third⟩ ⟨b, second⟩ before turned)⟩
  exact ((ties_iff descending).mp (ties_trans ranked first second third left right)).1 before

end

theorem ties_comm (a b : Scored) : a.ties heap depth b = b.ties heap depth a := Bool.and_comm _ _

/-- Whether entries are in the order that they have to come in. -/
def InOrder (heap : Heap) (depth : Nat) (descending : Bool) (entries : List Scored) : Prop :=
  entries.Pairwise fun a b => b.ahead heap depth descending a = false

/-- Two lists of entries merged, where entries of the right one that have to come first do. -/
def merged (heap : Heap) (depth : Nat) (descending : Bool) (left right : List Scored) : List Scored :=
  List.merge left right fun a b => !b.ahead heap depth descending a

theorem merged_perm (left right : List Scored) :
    (merged heap depth descending left right).Perm (left ++ right) :=
  List.merge_perm_append _

section

variable {all : List Scored} (ranked : Ranked heap depth (all.map score))

include ranked

theorem merge_eq {left right : List Scored} (fromLeft : left ⊆ all) (fromRight : right ⊆ all) :
    merge heap depth descending left right = pure (merged heap depth descending left right) := by
  fun_induction merge heap depth descending left right with
  | case1 right => rw [merged, List.nil_merge]
  | case2 left => rw [merged, List.merge_right]
  | case3 a left b right tookRight tookLeft =>
      have first := fromLeft List.mem_cons_self
      have second := fromRight List.mem_cons_self
      rw [goesFirst_eq ranked first second, pure_bind,
        tookRight fromLeft (List.subset_of_cons_subset fromRight),
        tookLeft (List.subset_of_cons_subset fromLeft) fromRight]
      cases ahead : b.ahead heap depth descending a <;> simp [merged, ahead]

/-- What is behind the first entry of a list in order is behind whatever is ahead of that one. -/
theorem ahead_all {a b : Scored} {left : List Scored} (fromLeft : a :: left ⊆ all) (second : b ∈ all)
    (ordered : InOrder heap depth descending (a :: left))
    (ahead : b.ahead heap depth descending a = true) :
    ∀ entry ∈ a :: left, b.ahead heap depth descending entry = true := by
  refine List.forall_mem_cons.mpr ⟨ahead, fun entry member => ?_⟩
  have behind := List.rel_of_pairwise_cons ordered member
  have inside := fromLeft (List.mem_cons_of_mem a member)
  refine (ahead_or_ahead ranked second inside (fromLeft List.mem_cons_self) ahead).resolve_right ?_
  rw [behind]
  exact Bool.false_ne_true

theorem not_ahead_all {a b : Scored} {right : List Scored} (first : a ∈ all)
    (fromRight : b :: right ⊆ all) (ordered : InOrder heap depth descending (b :: right))
    (behind : b.ahead heap depth descending a = false) :
    ∀ entry ∈ b :: right, entry.ahead heap depth descending a = false := by
  refine List.forall_mem_cons.mpr ⟨behind, fun entry member => ?_⟩
  have inside := fromRight (List.mem_cons_of_mem b member)
  rw [Bool.eq_false_iff] at behind ⊢
  intro ahead
  rcases ahead_or_ahead ranked inside (fromRight List.mem_cons_self) first ahead with turned | turned
  · exact Bool.eq_false_iff.mp (List.rel_of_pairwise_cons ordered member) turned
  · exact behind turned

theorem inOrder_merged {left right : List Scored} (fromLeft : left ⊆ all) (fromRight : right ⊆ all)
    (orderedLeft : InOrder heap depth descending left)
    (orderedRight : InOrder heap depth descending right) :
    InOrder heap depth descending (merged heap depth descending left right) := by
  induction left generalizing right with
  | nil => rwa [merged, List.nil_merge]
  | cons a left tookLeft =>
      induction right with
      | nil => rwa [merged, List.merge_right]
      | cons b right tookRight =>
          have first := fromLeft List.mem_cons_self
          have second := fromRight List.mem_cons_self
          have inLeft := List.subset_of_cons_subset fromLeft
          have inRight := List.subset_of_cons_subset fromRight
          rw [merged, List.cons_merge_cons]
          cases ahead : b.ahead heap depth descending a with
          | true =>
              have behind := ahead_all ranked fromLeft second orderedLeft ahead
              refine List.pairwise_cons.mpr ⟨fun entry member => ?_, tookRight inRight orderedRight.tail⟩
              rcases List.mem_merge.mp member with member | member
              · exact ahead_asymm ranked second (fromLeft member) (behind entry member)
              · exact List.rel_of_pairwise_cons orderedRight member
          | false =>
              refine List.pairwise_cons.mpr
                ⟨fun entry member => ?_, tookLeft inLeft fromRight orderedLeft.tail orderedRight⟩
              rcases List.mem_merge.mp member with member | member
              · exact List.rel_of_pairwise_cons orderedLeft member
              · exact not_ahead_all ranked first fromRight orderedRight ahead entry member

theorem filter_merged {entry : Scored} (member : entry ∈ all) {left right : List Scored}
    (fromLeft : left ⊆ all) (fromRight : right ⊆ all) (ordered : InOrder heap depth descending left) :
    (merged heap depth descending left right).filter (ties heap depth entry) =
      left.filter (ties heap depth entry) ++ right.filter (ties heap depth entry) := by
  induction left generalizing right with
  | nil => rw [merged, List.nil_merge, List.filter_nil, List.nil_append]
  | cons a left tookLeft =>
      induction right with
      | nil => rw [merged, List.merge_right, List.filter_nil, List.append_nil]
      | cons b right tookRight =>
          have second := fromRight List.mem_cons_self
          have inLeft := List.subset_of_cons_subset fromLeft
          have inRight := List.subset_of_cons_subset fromRight
          rw [merged, List.cons_merge_cons]
          cases ahead : b.ahead heap depth descending a with
          | false =>
              have others := tookLeft inLeft fromRight ordered.tail
              simp only [Bool.not_false, if_true, List.filter_cons (x := a)]
              split
              · exact congrArg (a :: ·) others
              · exact others
          | true =>
              have others := tookRight inRight
              simp only [Bool.not_true, Bool.false_eq_true, if_false, List.filter_cons (x := b)]
              split
              · next tied =>
                  have none : (a :: left).filter (ties heap depth entry) = [] := by
                    refine List.filter_eq_nil_iff.mpr fun other inside tiedToo => ?_
                    have behind := ahead_all ranked fromLeft second ordered ahead other inside
                    rw [ties_comm] at tied
                    have same := ties_trans ranked second member (fromLeft inside) tied tiedToo
                    exact ((ties_iff descending).mp same).1 behind
                  rw [none, List.nil_append] at others ⊢
                  exact congrArg (b :: ·) others
              · exact others

variable (descending) in
theorem sort_eq {entries : List Scored} (included : entries ⊆ all) :
    ∃ sorted, sort heap depth descending entries = pure sorted ∧ sorted.Perm entries ∧
      InOrder heap depth descending sorted ∧
      ∀ entry ∈ all, sorted.filter (ties heap depth entry) = entries.filter (ties heap depth entry) := by
  fun_induction sort heap depth descending entries with
  | case1 entries short =>
      have ordered : InOrder heap depth descending entries := by
        match entries, short with
        | [], _ => exact .nil
        | [entry], _ => exact List.pairwise_singleton _ entry
      exact ⟨entries, rfl, .refl entries, ordered, fun _ _ => rfl⟩
  | case2 entries long middle sortLeft sortRight =>
      have inLeft : entries.take middle ⊆ all := List.Subset.trans (List.take_subset _ _) included
      have inRight : entries.drop middle ⊆ all := List.Subset.trans (List.drop_subset _ _) included
      obtain ⟨left, leftEnds, leftPerm, leftOrdered, leftTies⟩ := sortLeft inLeft
      obtain ⟨right, rightEnds, rightPerm, rightOrdered, rightTies⟩ := sortRight inRight
      have fromLeft := List.Subset.trans leftPerm.subset inLeft
      have fromRight := List.Subset.trans rightPerm.subset inRight
      refine ⟨merged heap depth descending left right, ?_, ?_,
        inOrder_merged ranked fromLeft fromRight leftOrdered rightOrdered, fun entry member => ?_⟩
      · rw [leftEnds, pure_bind, rightEnds, pure_bind, merge_eq ranked fromLeft fromRight]
      · exact (merged_perm left right).trans
          ((leftPerm.append rightPerm).trans (.of_eq (List.take_append_drop middle entries)))
      · rw [filter_merged ranked member fromLeft fromRight leftOrdered, leftTies entry member,
          rightTies entry member, ← List.filter_append, List.take_append_drop]

end

theorem perm_of_merge {left right entries : List Scored}
    (ended : merge heap depth descending left right = pure entries) :
    entries.Perm (left ++ right) := by
  fun_induction merge heap depth descending left right generalizing entries with
  | case1 right =>
      cases ended
      exact .refl _
  | case2 left =>
      cases ended
      exact .of_eq (List.append_nil _).symm
  | case3 a left b right tookRight tookLeft =>
      obtain ⟨first, -, ended⟩ := Query.bind_eq_pure ended
      cases first with
      | true =>
          obtain ⟨others, rest, same⟩ := Query.bind_eq_pure ended
          cases same
          exact ((tookRight rest).cons b).trans List.perm_middle.symm
      | false =>
          obtain ⟨others, rest, same⟩ := Query.bind_eq_pure ended
          cases same
          exact (tookLeft rest).cons a

theorem perm_of_sort {entries sorted : List Scored}
    (ended : sort heap depth descending entries = pure sorted) : sorted.Perm entries := by
  fun_induction sort heap depth descending entries generalizing sorted with
  | case1 entries short =>
      cases ended
      exact .refl _
  | case2 entries long middle sortLeft =>
      rename_i sortRight
      obtain ⟨left, leftEnds, ended⟩ := Query.bind_eq_pure ended
      obtain ⟨right, rightEnds, ended⟩ := Query.bind_eq_pure ended
      exact (perm_of_merge ended).trans (((sortLeft leftEnds).append (sortRight rightEnds)).trans
        (.of_eq (List.take_append_drop middle entries)))

theorem throw_of_merge {left right : List Scored} {error : RuntimeError}
    (failed : merge heap depth descending left right = throw error) :
    ∃ a ∈ left, ∃ b ∈ right, goesFirst heap depth descending a b = throw error := by
  fun_induction merge heap depth descending left right with
  | case1 right => exact absurd failed Query.pure_ne_throw
  | case2 left => exact absurd failed Query.pure_ne_throw
  | case3 a left b right tookRight tookLeft =>
      rcases Query.bind_eq_throw failed with failed | ⟨first, -, failed⟩
      · exact ⟨a, List.mem_cons_self, b, List.mem_cons_self, failed⟩
      cases first with
      | true =>
          rcases Query.bind_eq_throw failed with failed | ⟨others, -, failed⟩
          · obtain ⟨c, inLeft, d, inRight, failed⟩ := tookRight failed
            exact ⟨c, inLeft, d, List.mem_cons_of_mem b inRight, failed⟩
          · exact absurd failed Query.pure_ne_throw
      | false =>
          rcases Query.bind_eq_throw failed with failed | ⟨others, -, failed⟩
          · obtain ⟨c, inLeft, d, inRight, failed⟩ := tookLeft failed
            exact ⟨c, List.mem_cons_of_mem a inLeft, d, inRight, failed⟩
          · exact absurd failed Query.pure_ne_throw

/-- A sort fails only where an entry is compared with a later one. -/
theorem throw_of_sort {entries : List Scored} {error : RuntimeError}
    (failed : sort heap depth descending entries = throw error) :
    ∃ a b, [a, b].Sublist entries ∧ goesFirst heap depth descending a b = throw error := by
  fun_induction sort heap depth descending entries with
  | case1 entries short => exact absurd failed Query.pure_ne_throw
  | case2 entries long middle sortLeft sortRight =>
      rcases Query.bind_eq_throw failed with failed | ⟨left, leftEnds, failed⟩
      · obtain ⟨a, b, inside, failed⟩ := sortLeft failed
        exact ⟨a, b, inside.trans (List.take_sublist _ _), failed⟩
      rcases Query.bind_eq_throw failed with failed | ⟨right, rightEnds, failed⟩
      · obtain ⟨a, b, inside, failed⟩ := sortRight failed
        exact ⟨a, b, inside.trans (List.drop_sublist _ _), failed⟩
      obtain ⟨a, inLeft, b, inRight, failed⟩ := throw_of_merge failed
      have first := List.singleton_sublist.mpr ((perm_of_sort leftEnds).subset inLeft)
      have second := List.singleton_sublist.mpr ((perm_of_sort rightEnds).subset inRight)
      exact ⟨a, b, List.take_append_drop middle entries ▸ first.append second, failed⟩

/-- If any two scores can be compared by `<` and it is a strict weak order on them, a sort gives back
the entries in order, and entries that tie in the order that they came in.  An error is always that of
comparing the scores of an entry and of a later one. -/
theorem sort_stable (heap : Heap) (depth : Nat) (descending : Bool) (entries : List Scored) :
    (Ranked heap depth (entries.map score) →
      ∃ sorted, sort heap depth descending entries = pure sorted ∧ sorted.Perm entries ∧
        InOrder heap depth descending sorted ∧
        ∀ entry ∈ entries,
          sorted.filter (ties heap depth entry) = entries.filter (ties heap depth entry)) ∧
      ∀ error, sort heap depth descending entries = throw error →
        ∃ a b, [a, b].Sublist entries ∧
          (if descending then Query.order heap depth "<" a.score b.score
            else Query.order heap depth "<" b.score a.score) = throw error := by
  refine ⟨fun ranked => sort_eq descending ranked (List.Subset.refl entries), fun error failed => ?_⟩
  obtain ⟨a, b, inside, failed⟩ := throw_of_sort failed
  refine ⟨a, b, inside, ?_⟩
  cases descending with
  | true => exact Query.less_eq_throw failed
  | false => exact Query.less_eq_throw failed

/-- Of three entries in descending order the two that tie keep their order, and a number cannot be
sorted with a text. -/
theorem sort_stable_ties :
    let first : Scored := ⟨.int 1, .str "a"⟩
    let second : Scored := ⟨.int 0, .str "b"⟩
    let third : Scored := ⟨.bool true, .str "c"⟩
    let text : Scored := ⟨.str "x", .none⟩
    (∃ sorted, sort .empty 1 true [first, second, third] = pure sorted ∧
        sorted.Perm [first, second, third] ∧ InOrder .empty 1 true sorted ∧
        sorted.filter (ties .empty 1 first) = [first, third]) ∧
      ∃ a b : Scored, [a, b].Sublist [first, text] ∧
        Query.order .empty 1 "<" b.score a.score = throw (.type (.order "<" "str" "int")) := by
  intro first second third text
  have ranked : Ranked .empty 1 ([first, second, third].map score) := by
    refine .of_floatFree ?_ ?_
    · simp [first, second, third, Value.FloatFree]
    · simp [first, second, third, Value.Ordered, Value.order, Value.number?]
  have failed : sort .empty 1 false [first, text] = throw (.type (.order "<" "str" "int")) := by
    cbv
  obtain ⟨sorted, ended, perm, ordered, tied⟩ :=
    (sort_stable .empty 1 true [first, second, third]).1 ranked
  exact ⟨⟨sorted, ended, perm, ordered, tied first List.mem_cons_self⟩,
    (sort_stable .empty 1 false [first, text]).2 _ failed⟩

end Scored

end Run

end Stepwise
