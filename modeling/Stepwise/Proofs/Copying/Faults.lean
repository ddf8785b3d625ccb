import Mathlib.Data.List.Forall2
import Mathlib.Data.List.Lex
import Stepwise.Proofs.Copying.Unfolding

/-!
What stands in the way of a copy.

A value is copied node by node in the order of reading.  A node is a fault if it is too deep, has no
data form or is a container that is still open, and a copy fails with the first fault that there is.
-/

namespace Stepwise.Record

section

variable {α β ε : Type} {step : α → Except ε β}

theorem mapM_eq_ok_iff {items : List α} {results : List β} : items.mapM step = .ok results ↔
    List.Forall₂ (fun item result => step item = .ok result) items results := by
  induction items generalizing results with
  | nil =>
      rw [List.mapM_nil, List.forall₂_nil_left_iff]
      exact ⟨fun same => (Except.ok.inj same).symm, fun same => same ▸ rfl⟩
  | cons item items inductionHypothesis =>
      rw [List.mapM_cons, List.forall₂_cons_left_iff]
      cases first : step item with
      | error error => exact ⟨nofun, fun ⟨_, _, here, _⟩ => nomatch here⟩
      | ok result =>
          cases others : items.mapM step with
          | error error =>
              refine ⟨nofun, ?_⟩
              rintro ⟨_, rest, -, here, -⟩
              rw [inductionHypothesis.mpr here] at others
              cases others
          | ok rest =>
              have here := inductionHypothesis.mp others
              constructor
              · intro same
                cases same
                exact ⟨result, rest, rfl, here, rfl⟩
              · rintro ⟨_, more, ⟨⟩, there, rfl⟩
                rw [inductionHypothesis.mpr there] at others
                cases others
                rfl

theorem exists_of_mapM_eq_error {items : List α} {error : ε} (failed : items.mapM step = .error error) :
    ∃ before item after, items = before ++ item :: after ∧
      (∀ other ∈ before, ∃ result, step other = .ok result) ∧ step item = .error error := by
  induction items with
  | nil => cases failed
  | cons item items inductionHypothesis =>
      rw [List.mapM_cons] at failed
      cases first : step item with
      | error cause =>
          rw [first] at failed
          cases failed
          exact ⟨[], item, items, rfl, List.forall_mem_nil _, first⟩
      | ok result =>
          rw [first] at failed
          cases others : items.mapM step with
          | ok rest =>
              rw [others] at failed
              cases failed
          | error cause =>
              rw [others] at failed
              cases failed
              obtain ⟨before, other, after, rfl, fine, here⟩ := inductionHypothesis others
              exact ⟨item :: before, other, after, rfl,
                List.forall_mem_cons.mpr ⟨⟨result, first⟩, fine⟩, here⟩

end

variable {heap : Heap} {limit : Nat}

def paired : List Snapshot → List (Snapshot × Snapshot)
  | key :: item :: rest => (key, item) :: paired rest
  | _ => []

def assembled : Value → List Snapshot → Snapshot
  | .bool truth, _ => .bool truth
  | .int number, _ => .int number
  | .float number, _ => .float number.toFloat
  | .str content, _ => .str content
  | .tuple .., copies => .tuple copies
  | .list _, copies => .list copies
  | .dict _, copies => .dict (paired copies)
  | _, _ => .none

/-- Why a value that is not too deep cannot be copied inside some open containers. -/
def blocked? (heap : Heap) (active : List Open) (value : Value) : Option CaptureError :=
  if value.hasDataForm then
    if value.opened?.any active.contains then some .cycle else none
  else some (.opaqueType (value.typeName heap))

def opening (active : List Open) (value : Value) : List Open := value.opened?.toList ++ active

mutual

theorem captureIn_toValue (made : Heap) (levels : Nat) (active : List Open) (key : Key) :
    captureIn heap limit levels active (key.toValue made).1 = captureKey limit levels key := by
  match levels, key with
  | 0, _ => rw [captureIn, captureKey]
  | levels + 1, .none | levels + 1, .bool _ | levels + 1, .int _ | levels + 1, .float _
  | levels + 1, .str _ => rfl
  | levels + 1, .tuple items =>
      simp only [Key.toValue, Heap.newTuple, captureIn, captureKey,
        mapM_captureIn_keysToValues made levels active items]

theorem mapM_captureIn_keysToValues (made : Heap) (levels : Nat) (active : List Open)
    (keys : List Key) :
    (keysToValues made keys).1.mapM (captureIn heap limit levels active) =
      keys.mapM (captureKey limit levels) := by
  match keys with
  | [] => rfl
  | key :: rest =>
      simp only [keysToValues, List.mapM_cons, captureIn_toValue made levels active key,
        mapM_captureIn_keysToValues _ levels active rest]

end

theorem mapM_entries (levels : Nat) (active : List Open) (entries : List (Key × Value)) :
    (entries.mapM fun entry => do
      let key ← captureKey limit levels entry.1
      return (key, ← captureIn heap limit levels active entry.2)) =
    (entries.flatMap fun entry => [(entry.1.toValue heap).1, entry.2]).mapM
      (captureIn heap limit levels active) >>= fun copies => .ok (paired copies) := by
  induction entries with
  | nil => rfl
  | cons entry entries inductionHypothesis =>
      rw [List.mapM_cons, inductionHypothesis, List.flatMap_cons, List.cons_append, List.cons_append,
        List.nil_append, List.mapM_cons, List.mapM_cons, captureIn_toValue]
      cases captureKey limit levels entry.1 with
      | error error => rfl
      | ok key =>
          cases captureIn heap limit levels active entry.2 with
          | error error => rfl
          | ok item =>
              cases (entries.flatMap _).mapM (captureIn heap limit levels active) <;> rfl

/-- A value that is not too deep is copied from the copies of its children, unless it is blocked. -/
theorem captureIn_succ (levels : Nat) (active : List Open) (value : Value) :
    captureIn heap limit (levels + 1) active value =
      match blocked? heap active value with
      | some error => .error error
      | none => (value.children heap).mapM (captureIn heap limit levels (opening active value)) >>=
          fun copies => .ok (assembled value copies) := by
  cases value with
  | list ref =>
      cases again : active.contains (.list ref) <;>
        simp only [captureIn, blocked?, Value.hasDataForm, Value.opened?, Option.any_some, again] <;>
          rfl
  | dict ref =>
      cases again : active.contains (.dict ref) with
      | true =>
          simp only [captureIn, blocked?, Value.hasDataForm, Value.opened?, Option.any_some, again]
          rfl
      | false =>
          simp only [captureIn, blocked?, Value.hasDataForm, Value.opened?, Option.any_some, again,
            mapM_entries, bind_assoc]
          rfl
  | _ => rfl

theorem captureIn_eq_ok {levels : Nat} {active : List Open} {value : Value} {copy : Snapshot}
    (captured : captureIn heap limit (levels + 1) active value = .ok copy) :
    blocked? heap active value = none ∧ ∃ copies, copy = assembled value copies ∧
      List.Forall₂ (fun child copy => captureIn heap limit levels (opening active value) child = .ok copy)
        (value.children heap) copies := by
  rw [captureIn_succ] at captured
  cases free : blocked? heap active value with
  | some error =>
      rw [free] at captured
      cases captured
  | none =>
      rw [free] at captured
      cases copied : (value.children heap).mapM
          (captureIn heap limit levels (opening active value)) with
      | error error =>
          rw [copied] at captured
          cases captured
      | ok copies =>
          rw [copied] at captured
          cases captured
          exact ⟨rfl, copies, rfl, mapM_eq_ok_iff.mp copied⟩

/-- What is wrong with the node at a path, if so many levels may be copied inside some open
containers. -/
def fault? (heap : Heap) (limit : Nat) :
    Nat → List Open → Value → List Nat → Option CaptureError
  | 0, _, _, [] => some (.tooDeep limit)
  | _ + 1, active, value, [] => blocked? heap active value
  | levels, active, value, index :: path =>
      (value.children heap)[index]?.bind fun child =>
        fault? heap limit (levels - 1) (opening active value) child path

def IsFirst (faultAt? : List Nat → Option CaptureError) (path : List Nat) (error : CaptureError) :
    Prop :=
  faultAt? path = some error ∧ ∀ earlier, earlier < path → faultAt? earlier = none

theorem IsFirst.unique {faultAt? : List Nat → Option CaptureError} {path other : List Nat}
    {error cause : CaptureError} (first : IsFirst faultAt? path error)
    (otherwise : IsFirst faultAt? other cause) : error = cause := by
  rcases lt_trichotomy path other with earlier | rfl | later
  · cases first.1.symm.trans (otherwise.2 path earlier)
  · exact Option.some.inj (first.1.symm.trans otherwise.1)
  · cases otherwise.1.symm.trans (first.2 other later)

theorem fault?_of_captured {levels : Nat} {active : List Open} {value : Value} {copy : Snapshot}
    (captured : captureIn heap limit levels active value = .ok copy) (path : List Nat) :
    fault? heap limit levels active value path = none := by
  induction levels generalizing active value copy path with
  | zero => cases captured
  | succ levels inductionHypothesis =>
      obtain ⟨free, copies, -, each⟩ := captureIn_eq_ok captured
      cases path with
      | nil => exact free
      | cons index path =>
          rw [fault?, Option.bind_eq_none_iff]
          intro child found
          obtain ⟨inside, here⟩ := List.getElem?_eq_some_iff.mp found
          have same := List.forall₂_iff_get.mp each
          have childCaptured := same.2 index inside (same.1 ▸ inside)
          rw [List.get_eq_getElem, here] at childCaptured
          exact inductionHypothesis childCaptured path

theorem exists_first_of_failed {levels : Nat} {active : List Open} {value : Value}
    {error : CaptureError} (failed : captureIn heap limit levels active value = .error error) :
    ∃ path, IsFirst (fault? heap limit levels active value) path error := by
  induction levels generalizing active value with
  | zero =>
      cases failed
      exact ⟨[], rfl, nofun⟩
  | succ levels inductionHypothesis =>
      rw [captureIn_succ] at failed
      cases blocked : blocked? heap active value with
      | some cause =>
          rw [blocked] at failed
          cases failed
          exact ⟨[], blocked, nofun⟩
      | none =>
          rw [blocked] at failed
          cases copied : (value.children heap).mapM
              (captureIn heap limit levels (opening active value)) with
          | ok copies =>
              rw [copied] at failed
              cases failed
          | error cause =>
              rw [copied] at failed
              cases failed
              obtain ⟨before, child, after, row, fine, childFailed⟩ := exists_of_mapM_eq_error copied
              obtain ⟨path, here, first⟩ := inductionHypothesis childFailed
              refine ⟨before.length :: path, ?_, fun earlier less => ?_⟩
              · rw [fault?, row, List.getElem?_append_right (Nat.le_refl _), Nat.sub_self]
                exact here
              · cases earlier with
                | nil => exact blocked
                | cons index earlier =>
                    rw [fault?, row, Option.bind_eq_none_iff]
                    intro other found
                    rcases List.cons_lt_cons_iff.mp less with sooner | ⟨rfl, lessInside⟩
                    · rw [List.getElem?_append_left sooner] at found
                      obtain ⟨copy, captured⟩ := fine other (List.mem_of_getElem? found)
                      exact fault?_of_captured captured earlier
                    · rw [List.getElem?_append_right (Nat.le_refl _), Nat.sub_self] at found
                      cases found
                      exact first earlier lessInside

theorem captureIn_eq_error_iff {levels : Nat} {active : List Open} {value : Value}
    {error : CaptureError} : captureIn heap limit levels active value = .error error ↔
      ∃ path, IsFirst (fault? heap limit levels active value) path error := by
  refine ⟨exists_first_of_failed, fun ⟨path, first⟩ => ?_⟩
  cases result : captureIn heap limit levels active value with
  | ok copy => cases (fault?_of_captured result path).symm.trans first.1
  | error cause =>
      obtain ⟨other, otherwise⟩ := exists_first_of_failed result
      rw [otherwise.unique first]

end Stepwise.Record
