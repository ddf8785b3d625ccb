import Mathlib.Data.List.Basic
import Stepwise.Record.Snapshot

/-!
The trees that values unfold to.

The values inside a value are the nodes of a tree, which goes on forever if a container is inside
itself.  A path of positions leads to each node, and `<` on paths is the order of reading.  A value that
unfolds to a finite tree of data has one snapshot that is this tree.
-/

namespace Stepwise

open Record

namespace Value

/-- The values right inside a value, from left to right; a key comes right before its item. -/
def children (heap : Heap) : Value → List Value
  | .tuple _ items => items
  | .list ref => (heap.list ref).toList
  | .dict ref => (heap.dict ref).entries.flatMap fun entry => [(entry.1.toValue heap).1, entry.2]
  | _ => []

def at? (heap : Heap) (value : Value) : List Nat → Option Value
  | [] => some value
  | index :: path => (value.children heap)[index]?.bind fun child => child.at? heap path

def hasDataForm : Value → Bool
  | .function _ | .builtin _ | .range _ | .iterator _ => false
  | _ => true

def opened? : Value → Option Open
  | .list ref => some (.list ref)
  | .dict ref => some (.dict ref)
  | _ => Option.none

variable {heap : Heap} {value node : Value}

@[simp] theorem at?_nil : value.at? heap [] = some value := rfl

@[simp] theorem at?_cons (index : Nat) (path : List Nat) : value.at? heap (index :: path) =
    (value.children heap)[index]?.bind fun child => child.at? heap path := rfl

theorem at?_append (outer inner : List Nat) : value.at? heap (outer ++ inner) =
    (value.at? heap outer).bind fun node => node.at? heap inner := by
  induction outer generalizing value with
  | nil => rfl
  | cons index outer inductionHypothesis =>
      simp only [List.cons_append, at?_cons, Option.bind_assoc, inductionHypothesis]

theorem eq_of_opened? {opened : Open} (first : value.opened? = some opened)
    (second : node.opened? = some opened) : value = node := by
  cases opened <;> cases value <;> cases node <;> simp_all [opened?]

end Value

mutual

/-- A value unfolds to a finite tree of data. -/
inductive Unfolds (heap : Heap) : Value → Snapshot → Prop where
  | none : Unfolds heap .none .none
  | bool (truth : Bool) : Unfolds heap (.bool truth) (.bool truth)
  | int (number : Int64) : Unfolds heap (.int number) (.int number)
  | float (number : Number.Double) : Unfolds heap (.float number) (.float number.toFloat)
  | str (content : String) : Unfolds heap (.str content) (.str content)
  | tuple {tag : Nat} {items : List Value} {trees : List Snapshot} :
      UnfoldAll heap items trees → Unfolds heap (.tuple tag items) (.tuple trees)
  | list {ref : Nat} {trees : List Snapshot} :
      UnfoldAll heap (heap.list ref).toList trees → Unfolds heap (.list ref) (.list trees)
  | dict {ref : Nat} {trees : List (Snapshot × Snapshot)} :
      UnfoldEntries heap (heap.dict ref).entries trees → Unfolds heap (.dict ref) (.dict trees)

inductive UnfoldAll (heap : Heap) : List Value → List Snapshot → Prop where
  | nil : UnfoldAll heap [] []
  | cons {value : Value} {tree : Snapshot} {values : List Value} {trees : List Snapshot} :
      Unfolds heap value tree → UnfoldAll heap values trees →
      UnfoldAll heap (value :: values) (tree :: trees)

inductive UnfoldEntries (heap : Heap) :
    List (Key × Value) → List (Snapshot × Snapshot) → Prop where
  | nil : UnfoldEntries heap [] []
  | cons {key : Key} {value : Value} {keyTree tree : Snapshot} {entries : List (Key × Value)}
      {trees : List (Snapshot × Snapshot)} :
      Unfolds heap (key.toValue heap).1 keyTree → Unfolds heap value tree →
      UnfoldEntries heap entries trees →
      UnfoldEntries heap ((key, value) :: entries) ((keyTree, tree) :: trees)

end

namespace Record

mutual

/-- How far below the root the deepest node of a tree is. -/
def Snapshot.depth : Snapshot → Nat
  | .list items | .tuple items => itemsDepth items
  | .dict entries => entriesDepth entries
  | _ => 0

def itemsDepth : List Snapshot → Nat
  | [] => 0
  | item :: rest => max (item.depth + 1) (itemsDepth rest)

def entriesDepth : List (Snapshot × Snapshot) → Nat
  | [] => 0
  | (key, item) :: rest => max (max (key.depth + 1) (item.depth + 1)) (entriesDepth rest)

end

end Record

variable {heap : Heap}

mutual

theorem Unfolds.unique {value : Value} {tree other : Snapshot} (unfolds : Unfolds heap value tree)
    (otherwise : Unfolds heap value other) : tree = other := by
  match tree, unfolds with
  | _, .none | _, .bool _ | _, .int _ | _, .float _ | _, .str _ =>
      cases otherwise
      rfl
  | _, .tuple inside =>
      cases otherwise with
      | tuple insideToo => rw [inside.unique insideToo]
  | _, .list inside =>
      cases otherwise with
      | list insideToo => rw [inside.unique insideToo]
  | _, .dict inside =>
      cases otherwise with
      | dict insideToo => rw [inside.unique insideToo]

theorem UnfoldAll.unique {values : List Value} {trees others : List Snapshot}
    (unfold : UnfoldAll heap values trees) (otherwise : UnfoldAll heap values others) :
    trees = others := by
  match trees, unfold with
  | _, .nil =>
      cases otherwise
      rfl
  | _, .cons first rest =>
      cases otherwise with
      | cons firstToo restToo => rw [first.unique firstToo, rest.unique restToo]

theorem UnfoldEntries.unique {entries : List (Key × Value)} {trees others : List (Snapshot × Snapshot)}
    (unfold : UnfoldEntries heap entries trees) (otherwise : UnfoldEntries heap entries others) :
    trees = others := by
  match trees, unfold with
  | _, .nil =>
      cases otherwise
      rfl
  | _, .cons key first rest =>
      cases otherwise with
      | cons keyToo firstToo restToo =>
          rw [key.unique keyToo, first.unique firstToo, rest.unique restToo]

end

theorem UnfoldAll.child {values : List Value} {trees : List Snapshot}
    (unfold : UnfoldAll heap values trees) {child : Value} (member : child ∈ values) :
    ∃ tree, Unfolds heap child tree ∧ tree.depth + 1 ≤ itemsDepth trees := by
  induction values generalizing trees with
  | nil => cases member
  | cons value values inductionHypothesis =>
      cases unfold with
      | cons first rest =>
          simp only [itemsDepth]
          rcases List.mem_cons.mp member with rfl | member
          · exact ⟨_, first, Nat.le_max_left _ _⟩
          · obtain ⟨tree, unfolds, below⟩ := inductionHypothesis rest member
            exact ⟨tree, unfolds, Nat.le_trans below (Nat.le_max_right _ _)⟩

theorem UnfoldEntries.child {entries : List (Key × Value)} {trees : List (Snapshot × Snapshot)}
    (unfold : UnfoldEntries heap entries trees) {child : Value}
    (member : child ∈ entries.flatMap fun entry => [(entry.1.toValue heap).1, entry.2]) :
    ∃ tree, Unfolds heap child tree ∧ tree.depth + 1 ≤ entriesDepth trees := by
  induction entries generalizing trees with
  | nil => cases member
  | cons entry entries inductionHypothesis =>
      cases unfold with
      | cons key first rest =>
          simp only [entriesDepth]
          simp only [List.flatMap_cons, List.cons_append, List.nil_append, List.mem_cons] at member
          rcases member with rfl | rfl | member
          · exact ⟨_, key, by omega⟩
          · exact ⟨_, first, by omega⟩
          · obtain ⟨tree, unfolds, below⟩ := inductionHypothesis rest member
            exact ⟨tree, unfolds, by omega⟩

namespace Unfolds

variable {value node : Value} {tree : Snapshot}

theorem child (unfolds : Unfolds heap value tree) {child : Value}
    (member : child ∈ value.children heap) :
    ∃ inner, Unfolds heap child inner ∧ inner.depth + 1 ≤ tree.depth := by
  cases unfolds with
  | tuple inside | list inside | dict inside => exact inside.child member
  | _ => cases member

/-- Every node of a finite tree unfolds to a part of it, as much less deep as the node is below the
root. -/
theorem at? (unfolds : Unfolds heap value tree) {path : List Nat}
    (found : value.at? heap path = some node) :
    ∃ inner, Unfolds heap node inner ∧ inner.depth + path.length ≤ tree.depth := by
  induction path generalizing value tree with
  | nil =>
      cases found
      exact ⟨tree, unfolds, Nat.le_refl _⟩
  | cons index path inductionHypothesis =>
      obtain ⟨child, here, found⟩ := Option.bind_eq_some_iff.mp found
      obtain ⟨middle, unfolds, below⟩ := unfolds.child (List.mem_of_getElem? here)
      obtain ⟨inner, unfolds, further⟩ := inductionHypothesis unfolds found
      exact ⟨inner, unfolds, by simp only [List.length_cons]; omega⟩

theorem hasDataForm (unfolds : Unfolds heap value tree) : value.hasDataForm = true := by
  cases unfolds <;> rfl

theorem not_inside (unfolds : Unfolds heap value tree) (index : Nat) (path : List Nat) :
    value.at? heap (index :: path) ≠ some value := by
  intro found
  obtain ⟨inner, unfoldsToo, below⟩ := unfolds.at? found
  rw [unfoldsToo.unique unfolds, List.length_cons] at below
  omega

end Unfolds

theorem Value.exists_deep {value : Value} {index : Nat} {path : List Nat}
    (inside : value.at? heap (index :: path) = some value) (depth : Nat) :
    ∃ deeper, depth ≤ deeper.length ∧ value.at? heap deeper = some value := by
  induction depth with
  | zero => exact ⟨[], Nat.le_refl _, rfl⟩
  | succ depth inductionHypothesis =>
      obtain ⟨deeper, long, found⟩ := inductionHypothesis
      refine ⟨deeper ++ index :: path, ?_, ?_⟩
      · simp only [List.length_append, List.length_cons]
        omega
      · rw [Value.at?_append, found]
        exact inside

end Stepwise
