import Stepwise.Proofs.Copying.Faults
import Stepwise.Proofs.Copying.KeyTexts
import Stepwise.Proofs.Interchange.Copies
import Stepwise.Proofs.Ordering.Tables

/-!
The members that the entries of a dict become.

Each entry of a dict becomes a member of an object.  Two members have the same name only where a text
among the keys spells another key, or where two keys differ in nothing but NaNs.
-/

namespace Stepwise

open Record

variable {heap : Heap} {limit levels : Nat} {active : List Open} {ref : Nat} {snapshot : Snapshot}

theorem keyCopies_eq_map (keys : List Key) : keyCopies keys = keys.map Key.copy := by
  induction keys with
  | nil => rfl
  | cons key keys inductionHypothesis => rw [keyCopies, inductionHypothesis, List.map_cons]

theorem captureKey_eq {key : Key} (captured : captureKey limit levels key = .ok snapshot) :
    snapshot = key.copy := by
  induction levels generalizing key snapshot with
  | zero => cases captured
  | succ levels inductionHypothesis =>
      cases key with
      | none | bool | int | float | str =>
          cases captured
          rfl
      | tuple items =>
          rw [captureKey] at captured
          cases copied : items.mapM (captureKey limit levels) with
          | error error =>
              rw [copied] at captured
              cases captured
          | ok copies =>
              rw [copied] at captured
              cases captured
              have each : List.Forall₂ (fun copy key => copy = key.copy) copies items :=
                ((mapM_eq_ok_iff.mp copied).imp fun _ _ => inductionHypothesis).flip
              have same : copies = items.map Key.copy :=
                List.forall₂_eq_eq_eq ▸ List.forall₂_map_right_iff.mpr each
              rw [Key.copy, keyCopies_eq_map, ← same]

def EntryCopied (heap : Heap) (limit levels : Nat) (active : List Open) (entry : Key × Value)
    (copy : Snapshot × Snapshot) : Prop :=
  copy.1 = entry.1.copy ∧ captureIn heap limit levels active entry.2 = .ok copy.2

theorem entriesCopied_paired {entries : List (Key × Value)} {copies : List Snapshot}
    (each : List.Forall₂ (fun child copy => captureIn heap limit levels active child = .ok copy)
      (entries.flatMap fun entry => [(entry.1.toValue heap).1, entry.2]) copies) :
    List.Forall₂ (EntryCopied heap limit levels active) entries (paired copies) := by
  induction entries generalizing copies with
  | nil =>
      cases each
      exact .nil
  | cons entry entries inductionHypothesis =>
      cases each with
      | cons key rest =>
          cases rest with
          | cons item rest =>
              rw [captureIn_toValue] at key
              exact .cons ⟨captureKey_eq key, item⟩ (inductionHypothesis rest)

theorem captureIn_dict
    (captured : captureIn heap limit (levels + 1) active (.dict ref) = .ok snapshot) :
    ∃ copies, snapshot = .dict copies ∧
      List.Forall₂ (EntryCopied heap limit levels (.dict ref :: active))
        (heap.dict ref).entries copies := by
  obtain ⟨-, copies, rfl, each⟩ := captureIn_eq_ok captured
  exact ⟨paired copies, rfl, entriesCopied_paired each⟩

def BecomesMember (heap : Heap) (limit levels : Nat) (active : List Open) (entry : Key × Value)
    (member : String × Json) : Prop :=
  member.1 = entry.1.memberName ∧
    ∃ copy, captureIn heap limit levels active entry.2 = .ok copy ∧ member.2 = copy.toJson

theorem names_of_becomesMember {entries : List (Key × Value)} {members : List (String × Json)}
    (each : List.Forall₂ (BecomesMember heap limit levels active) entries members) :
    members.map Prod.fst = (entries.map Prod.fst).map Key.memberName := by
  induction each with
  | nil => rfl
  | cons first _ inductionHypothesis =>
      rw [List.map_cons, List.map_cons, List.map_cons, first.1, inductionHypothesis]

theorem length_dedup_eq_iff {names : List String} {count : Nat} (all : names.length = count) :
    names.dedup.length = count ↔ names.Nodup := by
  rw [← all]
  constructor
  · intro same
    exact List.dedup_eq_self.mp ((List.dedup_sublist names).eq_of_length same)
  · intro distinct
    rw [distinct.dedup]

/-- Every entry of a dict becomes a member of its own, in the order of the entries.  Two of them have
one name exactly if the key of one is a text that spells the key of the other, so there are as many
names as entries exactly if no key spells another one.  Keys that differ in nothing but NaNs are left
out. -/
theorem toJson_members
    (captured : captureIn heap limit (levels + 1) active (.dict ref) = .ok snapshot) :
    ∃ members, snapshot.toJson = .object members ∧
      List.Forall₂ (BecomesMember heap limit levels (.dict ref :: active))
        (heap.dict ref).entries members ∧
      ((heap.dict ref).keys.Pairwise fun k l => ¬ k.SameButNaNs l →
        (k.memberName = l.memberName ↔ k.Spells l ∨ l.Spells k)) ∧
      (((heap.dict ref).keys.Pairwise fun k l => ¬ k.SameButNaNs l) →
        ((members.map Prod.fst).dedup.length = (heap.dict ref).size ↔
          (heap.dict ref).keys.Pairwise fun k l => ¬ k.Spells l ∧ ¬ l.Spells k)) := by
  obtain ⟨copies, rfl, each⟩ := captureIn_dict captured
  have becomes : List.Forall₂ (BecomesMember heap limit levels (.dict ref :: active))
      (heap.dict ref).entries (copies.map fun copy => (copy.1.keyText, copy.2.toJson)) := by
    rw [List.forall₂_map_right_iff]
    exact each.imp fun entry copy copied => ⟨congrArg Snapshot.keyText copied.1, _, copied.2, rfl⟩
  have names := names_of_becomesMember becomes
  have named : (heap.dict ref).keys.Pairwise fun k l => ¬ k.SameButNaNs l →
      (k.memberName = l.memberName ↔ k.Spells l ∨ l.Spells k) :=
    List.pairwise_map.mpr ((heap.dict ref).distinct.imp fun apart differ => Key.memberName_eq_iff apart differ)
  refine ⟨_, by rw [Snapshot.toJson, Snapshot.entriesToJson_eq_map], becomes, named, fun differ => ?_⟩
  rw [names, length_dedup_eq_iff (by rw [List.length_map, List.length_map, Dict.size]), List.Nodup,
    List.pairwise_map]
  constructor
  · intro apart
    refine (apart.and (named.and differ)).imp ?_
    rintro k l ⟨different, same, neither⟩
    exact not_or.mp fun spells => different ((same neither).mpr spells)
  · intro unspelled
    refine (unspelled.and (named.and differ)).imp ?_
    rintro k l ⟨⟨left, right⟩, same, neither⟩ equal
    exact ((same neither).mp equal).elim left right

/-- `{1: None, 'x': None, (1,): None}` becomes an object with three names. -/
theorem toJson_members_apart :
    ∃ snapshot members,
      capture (Heap.empty.newDict
        ⟨[(.int 1, .none), (.str "x", .none), (.tuple [.int 1], .none)], by decide⟩).2 standardDepth
        (.dict 0) = .ok snapshot ∧
      snapshot.toJson = .object members ∧ (members.map Prod.fst).dedup.length = 3 := by
  let dict : Dict Value :=
    ⟨[(.int 1, .none), (.str "x", .none), (.tuple [.int 1], .none)], by decide⟩
  let heap := (Heap.empty.newDict dict).2
  have captured : captureIn heap standardDepth (standardDepth + 1) [] (.dict 0) =
      .ok (.dict [(.int 1, .none), (.str "x", .none), (.tuple [.int 1], .none)]) := by rfl
  obtain ⟨members, object, -, -, counted⟩ := toJson_members captured
  have differ : (heap.dict 0).keys.Pairwise fun k l => ¬ k.SameButNaNs l := by
    change [Key.int 1, .str "x", .tuple [.int 1]].Pairwise _
    simp [Key.SameButNaNs, Key.copy]
  have unspelled : (heap.dict 0).keys.Pairwise fun k l => ¬ k.Spells l ∧ ¬ l.Spells k := by
    have number : (Key.int 1).memberName = "1" := by decide +kernel
    have tuple : (Key.tuple [.int 1]).memberName = "(1,)" := by decide +kernel
    change [Key.int 1, .str "x", .tuple [.int 1]].Pairwise _
    simp [Key.Spells, number, tuple]
  exact ⟨_, members, captured, object, (counted differ).mpr unspelled⟩

/-- `{1: 'a', '1': 'b'}` is a dict with two entries, and becomes an object with one name. -/
theorem toJson_members_spelled :
    ∃ snapshot members,
      capture (Heap.empty.newDict ⟨[(.int 1, .str "a"), (.str "1", .str "b")], by decide⟩).2
        standardDepth (.dict 0) = .ok snapshot ∧
      snapshot.toJson = .object members ∧ (members.map Prod.fst).dedup = ["1"] :=
  ⟨.dict [(.int 1, .str "a"), (.str "1", .str "b")], [("1", .str "a"), ("1", .str "b")],
    by rfl, by rfl, by decide +kernel⟩

end Stepwise
