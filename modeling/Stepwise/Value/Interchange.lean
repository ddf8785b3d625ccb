import Stepwise.Json.Basic
import Stepwise.Number.Bounded
import Stepwise.Value.Basic

/-!
Interchange values as values of a script.

Arrays become lists and objects become dicts with text keys in code point order; of a repeated key
the last value counts.
-/

namespace Stepwise

def lastMembers {α : Type} : List (String × α) → List (String × α)
  | [] => []
  | member :: rest =>
      if rest.any fun later => later.1 == member.1 then lastMembers rest
      else member :: lastMembers rest

def canonicalMembers {α : Type} (members : List (String × α)) : List (String × α) :=
  (lastMembers members).mergeSort fun a b => !(b.1 < a.1)

theorem mem_lastMembers {α : Type} {members : List (String × α)} {member : String × α}
    (kept : member ∈ lastMembers members) : member ∈ members := by
  induction members with
  | nil => exact kept
  | cons first rest inductionHypothesis =>
      unfold lastMembers at kept
      split at kept
      · exact List.mem_cons_of_mem _ (inductionHypothesis kept)
      · rcases List.mem_cons.mp kept with rfl | kept
        · exact List.mem_cons_self
        · exact List.mem_cons_of_mem _ (inductionHypothesis kept)

theorem lastMembers_apart {α : Type} (members : List (String × α)) :
    (lastMembers members).Pairwise fun a b => a.1 ≠ b.1 := by
  induction members with
  | nil => exact .nil
  | cons first rest inductionHypothesis =>
      rw [lastMembers]
      split
      · exact inductionHypothesis
      · next last =>
          refine List.pairwise_cons.mpr ⟨fun later kept same => last ?_, inductionHypothesis⟩
          exact List.any_eq_true.mpr ⟨later, mem_lastMembers kept, beq_iff_eq.mpr same.symm⟩

theorem canonicalMembers_apart {α : Type} (members : List (String × α)) :
    (canonicalMembers members).Pairwise fun a b => a.1 ≠ b.1 :=
  ((List.mergeSort_perm _ _).pairwise_iff fun apart => apart.symm).mpr (lastMembers_apart members)

def Dict.ofMembers {α : Type} (members : List (String × α)) : Dict α where
  entries := (canonicalMembers members).map fun entry => (.str entry.1, entry.2)
  distinct := List.pairwise_map.mpr <| (canonicalMembers_apart members).imp fun apart => by
    simp [Key.finds, Key.equal, apart]

mutual

/-- The value that stands for an interchange value on a heap. -/
def Value.ofJson (heap : Heap) : Json → Value × Heap
  | .null => (.none, heap)
  | .bool value => (.bool value, heap)
  | .int value =>
      match Number.bounded? value with
      | some value => (.int value, heap)
      | none => (.float (.ofFloat (Number.nearest value)), heap)
  | .float value => (.float (.ofFloat value), heap)
  | .str value => (.str value, heap)
  | .array items =>
      let (values, heap) := valuesOfJson heap items
      heap.newList values.toArray
  | .object members =>
      let (entries, heap) := entriesOfJson heap members
      heap.newDict (.ofMembers entries)

/-- The values that stand for several interchange values. -/
def valuesOfJson (heap : Heap) : List Json → List Value × Heap
  | [] => ([], heap)
  | item :: rest =>
      let (value, heap) := Value.ofJson heap item
      let (values, heap) := valuesOfJson heap rest
      (value :: values, heap)

/-- The members of an object with the values that stand for theirs. -/
def entriesOfJson (heap : Heap) : List (String × Json) → List (String × Value) × Heap
  | [] => ([], heap)
  | (key, item) :: rest =>
      let (value, heap) := Value.ofJson heap item
      let (entries, heap) := entriesOfJson heap rest
      ((key, value) :: entries, heap)

end

end Stepwise
