import Stepwise.Proofs.Copying.Unfolding
import Stepwise.Proofs.Interchange.Canonical
import Stepwise.Proofs.Interchange.Reading
import Stepwise.Proofs.Literals.Datum

/-!
What comes in goes out.

A value that stands for an interchange value unfolds to a tree that is no deeper than the interchange
value is nested, and the tree is written as its canonical form.  It does so on every heap that retains
what the value is made of.
-/

namespace Stepwise

open Record

namespace Record.Snapshot

theorem itemsToJson_eq_map (items : List Snapshot) : itemsToJson items = items.map toJson := by
  induction items with
  | nil => rfl
  | cons item rest inductionHypothesis => rw [itemsToJson, inductionHypothesis, List.map_cons]

theorem entriesToJson_eq_map (entries : List (Snapshot × Snapshot)) :
    entriesToJson entries = entries.map fun entry => (entry.1.keyText, entry.2.toJson) := by
  induction entries with
  | nil => rfl
  | cons entry rest inductionHypothesis => rw [entriesToJson, inductionHypothesis, List.map_cons]

end Record.Snapshot

structure Echo where
  json : Json
  value : Value
  tree : Snapshot

namespace Echo

/-- The tree is that of the value wherever the contents of a heap are retained, and it is written as
the canonical form of the interchange value. -/
structure IsOn (heap : Heap) (echo : Echo) : Prop where
  unfolds : ∀ later, heap.Retains later → Unfolds later echo.value echo.tree
  shallow : echo.tree.depth ≤ echo.json.nesting
  canonical : echo.json.Canonical echo.tree.toJson

variable {heap : Heap}

theorem IsOn.mono {after : Heap} {echo : Echo} (here : echo.IsOn heap) (keeps : heap.Retains after) :
    echo.IsOn after where
  unfolds later keepsToo := here.unfolds later (keeps.trans keepsToo)
  shallow := here.shallow
  canonical := here.canonical

section Arrays

variable {echoes : List Echo} (here : ∀ echo ∈ echoes, echo.IsOn heap)
include here

theorem unfoldAll {later : Heap} (keeps : heap.Retains later) :
    UnfoldAll later (echoes.map value) (echoes.map tree) := by
  induction echoes with
  | nil => exact .nil
  | cons echo rest inductionHypothesis =>
      obtain ⟨first, others⟩ := List.forall_mem_cons.mp here
      exact .cons (first.unfolds later keeps) (inductionHypothesis others)

theorem itemsDepth_le : itemsDepth (echoes.map tree) ≤ Json.itemsNesting (echoes.map json) + 1 := by
  induction echoes with
  | nil => exact Nat.zero_le _
  | cons echo rest inductionHypothesis =>
      obtain ⟨first, others⟩ := List.forall_mem_cons.mp here
      have := first.shallow
      have := inductionHypothesis others
      simp only [List.map_cons, itemsDepth, Json.itemsNesting]
      omega

theorem isOn_list : IsOn (heap.newList (echoes.map value).toArray).2
    ⟨.array (echoes.map json), (heap.newList (echoes.map value).toArray).1,
      .list (echoes.map tree)⟩ where
  unfolds later keeps := by
    have stored : later.lists[heap.lists.size]? = some (echoes.map value).toArray :=
      keeps.lists _ _ (by simp [Heap.newList])
    have items : (later.list heap.lists.size).toList = echoes.map value := by
      rw [Heap.list, stored, Option.getD_some]
    exact .list (items ▸ unfoldAll here ((Heap.Retains.newList heap _).trans keeps))
  shallow := itemsDepth_le here
  canonical := by
    rw [Snapshot.toJson, Snapshot.itemsToJson_eq_map, List.map_map]
    refine .array (by simp) fun index item other source copied => ?_
    rw [List.getElem?_map, Option.map_eq_some_iff] at source copied
    obtain ⟨echo, found, rfl⟩ := source
    obtain ⟨echoToo, foundToo, rfl⟩ := copied
    cases found.symm.trans foundToo
    exact (here echo (List.mem_of_getElem? found)).canonical

end Arrays

section Objects

variable {echoes : List (String × Echo)} (here : ∀ echo ∈ echoes, echo.2.IsOn heap)
include here

theorem unfoldEntries {later : Heap} (keeps : heap.Retains later) :
    UnfoldEntries later (echoes.map fun echo => (.str echo.1, echo.2.value))
      (echoes.map fun echo => (.str echo.1, echo.2.tree)) := by
  induction echoes with
  | nil => exact .nil
  | cons echo rest inductionHypothesis =>
      obtain ⟨first, others⟩ := List.forall_mem_cons.mp here
      exact .cons (.str echo.1) (first.unfolds later keeps) (inductionHypothesis others)

end Objects

theorem nesting_le_membersNesting {members : List (String × Json)} {member : String × Json}
    (inside : member ∈ members) : member.2.nesting ≤ Json.membersNesting members := by
  induction members with
  | nil => cases inside
  | cons first rest inductionHypothesis =>
      rw [Json.membersNesting]
      rcases List.mem_cons.mp inside with rfl | inside
      · exact Nat.le_max_left _ _
      · exact Nat.le_trans (inductionHypothesis inside) (Nat.le_max_right _ _)

theorem entriesDepth_le {echoes : List (String × Echo)} {depth : Nat}
    (shallow : ∀ echo ∈ echoes, echo.2.tree.depth ≤ depth) :
    entriesDepth (echoes.map fun echo => (.str echo.1, echo.2.tree)) ≤ depth + 1 := by
  induction echoes with
  | nil => exact Nat.zero_le _
  | cons echo rest inductionHypothesis =>
      obtain ⟨first, others⟩ := List.forall_mem_cons.mp shallow
      have := inductionHypothesis others
      simp only [List.map_cons, entriesDepth, Snapshot.depth]
      omega

/-- A new dict of the canonical members stands for the object of what they stand for. -/
theorem isOn_dict {echoes : List (String × Echo)} (here : ∀ echo ∈ echoes, echo.2.IsOn heap) :
    let entries : Dict Value := .ofMembers (echoes.map fun echo => (echo.1, echo.2.value))
    IsOn (heap.newDict entries).2
      ⟨.object (echoes.map fun echo => (echo.1, echo.2.json)), (heap.newDict entries).1,
        .dict ((canonicalMembers echoes).map fun echo => (.str echo.1, echo.2.tree))⟩ := by
  intro entries
  have kept : ∀ echo ∈ canonicalMembers echoes, echo.2.IsOn heap :=
    fun echo chosen => here echo (mem_canonicalMembers chosen)
  refine ⟨fun later keeps => ?_, ?_, ?_⟩
  · have stored : later.dicts[heap.dicts.size]? = some entries :=
      keeps.dicts _ _ (by simp [Heap.newDict])
    have held : (later.dict heap.dicts.size).entries =
        (canonicalMembers echoes).map fun echo => (.str echo.1, echo.2.value) := by
      rw [Heap.dict, stored, Option.getD_some]
      simp only [entries, Dict.ofMembers, canonicalMembers_map, List.map_map, Function.comp_def]
    exact .dict (held ▸ unfoldEntries kept ((Heap.Retains.newDict heap _).trans keeps))
  · refine entriesDepth_le fun echo chosen => ?_
    refine Nat.le_trans (kept echo chosen).shallow ?_
    have inside : (echo.1, echo.2.json) ∈ echoes.map fun echo => (echo.1, echo.2.json) :=
      List.mem_map.mpr ⟨echo, mem_canonicalMembers chosen, rfl⟩
    exact nesting_le_membersNesting inside
  · have written : (Snapshot.dict ((canonicalMembers echoes).map fun echo =>
        (.str echo.1, echo.2.tree))).toJson =
          .object ((canonicalMembers echoes).map fun echo => (echo.1, echo.2.tree.toJson)) := by
      simp [Snapshot.toJson, Snapshot.entriesToJson_eq_map, Snapshot.keyText]
    rw [written]
    refine .object ?_ (fun key => ?_) fun key value other final copied => ?_
    · rw [List.map_map]
      exact ascending_canonicalMembers echoes
    · simp only [List.map_map, Function.comp_def]
      exact keys_canonicalMembers
    · obtain ⟨echo, chosen, same⟩ := List.mem_map.mp copied
      cases same
      rw [Json.member?_eq_lastMember?, lastMember?_map, mem_canonicalMembers_iff.mp chosen] at final
      cases final
      exact (kept echo chosen).canonical

end Echo

mutual

/-- What is made of a value with whole numbers stands for it, and the heap retains what it held. -/
theorem Value.ofJson_echo (heap : Heap) (json : Json) (whole : json.isWhole = true) :
    heap.Retains (Value.ofJson heap json).2 ∧ ∃ tree,
      Echo.IsOn (Value.ofJson heap json).2 ⟨json, (Value.ofJson heap json).1, tree⟩ := by
  cases json with
  | null => exact ⟨.refl heap, .none, fun _ _ => .none, Nat.le_refl _, .scalar rfl⟩
  | bool value => exact ⟨.refl heap, .bool value, fun _ _ => .bool value, Nat.le_refl _, .scalar rfl⟩
  | int value =>
      have bounds := of_decide_eq_true whole
      obtain ⟨number, bounded, same⟩ := Json.exists_bounded? bounds.1 bounds.2
      simp only [Value.ofJson, bounded]
      refine ⟨.refl heap, .int number, fun _ _ => .int number, Nat.le_refl _, ?_⟩
      rw [Snapshot.toJson, same]
      exact .scalar rfl
  | float value => cases whole
  | str text => exact ⟨.refl heap, .str text, fun _ _ => .str text, Nat.le_refl _, .scalar rfl⟩
  | array items =>
      obtain ⟨keeps, echoes, same, values, here⟩ := valuesOfJson_echoes heap items whole
      have made : Value.ofJson heap (.array items) =
          (valuesOfJson heap items).2.newList (echoes.map Echo.value).toArray := by
        rw [values]
        rfl
      rw [made]
      exact ⟨keeps.trans (.newList _ _), _, same ▸ Echo.isOn_list here⟩
  | object members =>
      obtain ⟨keeps, echoes, same, values, here⟩ := entriesOfJson_echoes heap members whole
      have made : Value.ofJson heap (.object members) = (entriesOfJson heap members).2.newDict
          (.ofMembers (echoes.map fun echo => (echo.1, echo.2.value))) := by
        rw [values]
        rfl
      rw [made]
      exact ⟨keeps.trans (.newDict _ _), _, same ▸ Echo.isOn_dict here⟩

theorem valuesOfJson_echoes (heap : Heap) (items : List Json)
    (whole : Json.itemsWhole items = true) :
    heap.Retains (valuesOfJson heap items).2 ∧ ∃ echoes : List Echo, echoes.map Echo.json = items ∧
      echoes.map Echo.value = (valuesOfJson heap items).1 ∧
        ∀ echo ∈ echoes, echo.IsOn (valuesOfJson heap items).2 := by
  cases items with
  | nil => exact ⟨.refl heap, [], rfl, rfl, List.forall_mem_nil _⟩
  | cons item rest =>
      rw [Json.itemsWhole, Bool.and_eq_true] at whole
      obtain ⟨keeps, tree, first⟩ := Value.ofJson_echo heap item whole.1
      obtain ⟨keepsToo, echoes, rfl, values, others⟩ :=
        valuesOfJson_echoes (Value.ofJson heap item).2 rest whole.2
      refine ⟨keeps.trans keepsToo, ⟨item, (Value.ofJson heap item).1, tree⟩ :: echoes, rfl, ?_, ?_⟩
      · rw [List.map_cons, values]
        rfl
      · exact List.forall_mem_cons.mpr ⟨first.mono keepsToo, others⟩

theorem entriesOfJson_echoes (heap : Heap) (members : List (String × Json))
    (whole : Json.membersWhole members = true) :
    heap.Retains (entriesOfJson heap members).2 ∧ ∃ echoes : List (String × Echo),
      (echoes.map fun echo => (echo.1, echo.2.json)) = members ∧
        (echoes.map fun echo => (echo.1, echo.2.value)) = (entriesOfJson heap members).1 ∧
          ∀ echo ∈ echoes, echo.2.IsOn (entriesOfJson heap members).2 := by
  cases members with
  | nil => exact ⟨.refl heap, [], rfl, rfl, List.forall_mem_nil _⟩
  | cons member rest =>
      rw [Json.membersWhole, Bool.and_eq_true] at whole
      obtain ⟨keeps, tree, first⟩ := Value.ofJson_echo heap member.2 whole.1
      obtain ⟨keepsToo, echoes, rfl, values, others⟩ :=
        entriesOfJson_echoes (Value.ofJson heap member.2).2 rest whole.2
      refine ⟨keeps.trans keepsToo,
        (member.1, ⟨member.2, (Value.ofJson heap member.2).1, tree⟩) :: echoes, rfl, ?_, ?_⟩
      · rw [List.map_cons, values]
        rfl
      · exact List.forall_mem_cons.mpr ⟨first.mono keepsToo, others⟩

end

end Stepwise
