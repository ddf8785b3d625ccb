import Stepwise.Proofs.Copying.Faults

/-!
A copy has the text of its value.

Texts and copies go through a value in the same order with the same containers open, and what is cut
off in a text is deeper than what a copy reaches.
-/

namespace Stepwise.Record

variable {heap : Heap} {limit : Nat}

mutual

theorem renderIn_toValue (made : Heap) (depth : Nat) (active : List Open) (key : Key) :
    (key.toValue made).1.renderIn heap depth active = key.render depth := by
  match depth, key with
  | 0, .tuple _ => rfl
  | depth + 1, .tuple items =>
      simp only [Key.toValue, Heap.newTuple, Value.renderIn, Key.render,
        map_renderIn_keysToValues made depth active items]
  | _, .none | _, .bool _ | _, .int _ | _, .float _ | _, .str _ =>
      simp only [Key.toValue, Value.renderIn, Key.render]

theorem map_renderIn_keysToValues (made : Heap) (depth : Nat) (active : List Open)
    (keys : List Key) : (keysToValues made keys).1.map (Value.renderIn heap depth active) =
      keys.map (Key.render depth) := by
  match keys with
  | [] => rfl
  | key :: rest =>
      simp only [keysToValues, List.map_cons, renderIn_toValue made depth active key,
        map_renderIn_keysToValues _ depth active rest]

end

section

variable {depth : Nat} {active : List Open} {copies : List Snapshot}

theorem map_renderIn {values : List Value} (same : List.Forall₂
    (fun value copy => value.renderIn heap depth active = copy.render) values copies) :
    values.map (Value.renderIn heap depth active) = Snapshot.renderAll copies := by
  induction same with
  | nil => rfl
  | cons first _ rest => rw [List.map_cons, Snapshot.renderAll, first, rest]

theorem map_renderEntry {entries : List (Key × Value)} (same : List.Forall₂
    (fun value copy => value.renderIn heap depth active = copy.render)
    (entries.flatMap fun entry => [(entry.1.toValue heap).1, entry.2]) copies) :
    (entries.map fun entry => entry.1.render depth ++ ": " ++ entry.2.renderIn heap depth active) =
      Snapshot.renderEntries (paired copies) := by
  induction entries generalizing copies with
  | nil =>
      cases same
      rfl
  | cons entry entries inductionHypothesis =>
      cases same with
      | cons key rest =>
          cases rest with
          | cons item rest =>
              rw [renderIn_toValue] at key
              rw [List.map_cons, paired, Snapshot.renderEntries, key, item, inductionHypothesis rest]

/-- A value that is not blocked is written from its children like its copy from their copies. -/
theorem renderIn_eq_render_assembled {value : Value} (free : blocked? heap active value = none)
    (same : List.Forall₂
      (fun child copy => child.renderIn heap depth (opening active value) = copy.render)
      (value.children heap) copies) :
    value.renderIn heap (depth + 1) active = (assembled value copies).render := by
  cases value with
  | tuple tag items =>
      simp only [Value.renderIn, assembled, Snapshot.render]
      rw [← map_renderIn same]
      rfl
  | list ref =>
      have closed : active.contains (.list ref) = false := by
        simpa [blocked?, Value.hasDataForm, Value.opened?] using free
      simp only [Value.renderIn, assembled, Snapshot.render, closed, Bool.false_eq_true, if_false]
      rw [← map_renderIn same]
      rfl
  | dict ref =>
      have closed : active.contains (.dict ref) = false := by
        simpa [blocked?, Value.hasDataForm, Value.opened?] using free
      simp only [Value.renderIn, assembled, Snapshot.render, closed, Bool.false_eq_true, if_false]
      rw [← map_renderEntry same]
      rfl
  | function _ | builtin _ | range _ | iterator _ => cases free
  | _ => simp only [Value.renderIn, assembled, Snapshot.render]

end

theorem renderIn_of_captured {levels depth : Nat} {active : List Open} {value : Value}
    {copy : Snapshot} (captured : captureIn heap limit levels active value = .ok copy)
    (room : levels ≤ depth) : value.renderIn heap depth active = copy.render := by
  induction levels generalizing depth active value copy with
  | zero => cases captured
  | succ levels inductionHypothesis =>
      obtain ⟨depth, rfl⟩ : ∃ inner, depth = inner + 1 := ⟨depth - 1, by omega⟩
      obtain ⟨free, copies, rfl, each⟩ := captureIn_eq_ok captured
      exact renderIn_eq_render_assembled free <| each.imp fun _ _ captured =>
        inductionHypothesis captured (Nat.le_of_succ_le_succ room)

/-- A copy is written like its value, if copies go at most 511 levels deep: texts of values go one level
deeper. -/
theorem render_of_capture {depth : Nat} (shallow : depth ≤ 511) {value : Value} {copy : Snapshot}
    (captured : capture heap depth value = .ok copy) : copy.render = value.render heap :=
  (renderIn_of_captured captured (Nat.succ_le_succ shallow)).symm

/-- A list with an item twice and a dict with a tuple as a key. -/
def sharingHeap : Heap := { Heap.empty with
  lists := #[#[.int 7], #[.list 0, .list 0, .tuple 0 [.bool true], .dict 0]]
  dicts := #[⟨[(.tuple [.int 1, .none], .str "it's")], by decide⟩] }

theorem render_of_capture_sharing : ∃ copy, 511 ≤ 511 ∧
    capture sharingHeap 511 (.list 1) = .ok copy ∧ copy.render = (Value.list 1).render sharingHeap :=
  have captured : capture sharingHeap 511 (.list 1) = .ok (.list
      [.list [.int 7], .list [.int 7], .tuple [.bool true],
        .dict [(.tuple [.int 1, .none], .str "it's")]]) := rfl
  ⟨_, Nat.le_refl _, captured, render_of_capture (Nat.le_refl _) captured⟩

end Stepwise.Record
