import Mathlib.Data.List.Nodup
import Mathlib.Data.List.Perm.Subperm
import Stepwise.Value.Dict

/-!
Dicts as tables.

Keys without doubles are equal exactly if they are filed together.  A dict with such keys is a table
from digests to values, and inclusion of one table in another of the same size goes both ways.
-/

namespace Stepwise

mutual

def Key.FloatFree : Key → Prop
  | .float _ => False
  | .tuple items => keysFloatFree items
  | _ => True

def keysFloatFree : List Key → Prop
  | [] => True
  | key :: rest => key.FloatFree ∧ keysFloatFree rest

end

theorem Key.equal_integers (m n : Int64) :
    sameNumber (.int m) (.int n) = true ↔ numberDigest (.int m) = numberDigest (.int n) := by
  rw [numberDigest, numberDigest, Digest.whole.injEq, Int64.toInt_inj]
  exact beq_iff_eq

mutual

theorem Key.equal_iff_digest {a b : Key} (first : a.FloatFree) (second : b.FloatFree) :
    a.equal b = true ↔ a.digest = b.digest := by
  match a, b with
  | .float _, _ => exact first.elim
  | _, .float _ => exact second.elim
  | .bool _, .bool _ | .bool _, .int _ | .int _, .bool _ | .int _, .int _ =>
      exact Key.equal_integers _ _
  | .none, .none => exact ⟨fun _ => rfl, fun _ => rfl⟩
  | .str s, .str t => rw [Key.digest, Key.digest, Digest.text.injEq]; exact beq_iff_eq
  | .tuple as, .tuple bs =>
      rw [Key.digest, Key.digest, Digest.tuple.injEq]
      exact equalItems_iff_digests first second
  | .none, .bool _ | .none, .int _ | .none, .str _ | .none, .tuple _
  | .bool _, .none | .bool _, .str _ | .bool _, .tuple _
  | .int _, .none | .int _, .str _ | .int _, .tuple _
  | .str _, .none | .str _, .bool _ | .str _, .int _ | .str _, .tuple _
  | .tuple _, .none | .tuple _, .bool _ | .tuple _, .int _ | .tuple _, .str _ =>
      exact ⟨nofun, nofun⟩

theorem equalItems_iff_digests {as bs : List Key} (first : keysFloatFree as)
    (second : keysFloatFree bs) : Key.equalItems as bs = true ↔ Key.digests as = Key.digests bs := by
  match as, bs with
  | [], [] => exact ⟨fun _ => rfl, fun _ => rfl⟩
  | [], _ :: _ | _ :: _, [] => exact ⟨nofun, nofun⟩
  | a :: as, b :: bs =>
      rw [Key.equalItems, Bool.and_eq_true, Key.digests, Key.digests, List.cons.injEq,
        Key.equal_iff_digest first.1 second.1, equalItems_iff_digests first.2 second.2]

end

theorem Key.finds_iff {a b : Key} (first : a.FloatFree) (second : b.FloatFree) :
    a.finds b = true ↔ a.digest = b.digest := by
  rw [finds, Bool.and_eq_true, equal_iff_digest first second, beq_iff_eq, and_self]

namespace Dict

variable {α β : Type} {dict : Dict α}

/-- Whether no key of a dict has a double in it. -/
def FloatFree (dict : Dict α) : Prop := ∀ entry ∈ dict.entries, entry.1.FloatFree

theorem nodup_digests (free : dict.FloatFree) :
    (dict.entries.map fun entry => entry.1.digest).Nodup := by
  refine List.pairwise_map.mpr (dict.distinct.imp_of_mem fun {a b} first second apart same => ?_)
  rw [← Key.finds_iff (free a first) (free b second), apart] at same
  cases same

theorem selects_iff {key : Key} (free : dict.FloatFree) (keyFree : key.FloatFree) {entry : Key × α}
    (present : entry ∈ dict.entries) :
    dict.selects key entry = true ↔ entry.1.digest = key.digest := by
  rw [selects_eq_true_iff, Key.equal_iff_digest (free entry present) keyFree]
  exact and_iff_left_of_imp .inr

theorem get?_eq_some_iff (free : dict.FloatFree) {key : Key} (keyFree : key.FloatFree) {value : α} :
    dict.get? key = some value ↔
      ∃ entry ∈ dict.entries, entry.1.digest = key.digest ∧ entry.2 = value := by
  rw [get?, Option.map_eq_some_iff]
  constructor
  · rintro ⟨entry, found, same⟩
    have present := List.mem_of_find?_eq_some found
    exact ⟨entry, present, (selects_iff free keyFree present).mp (List.find?_some found), same⟩
  · rintro ⟨entry, present, filed, same⟩
    have selected := (selects_iff free keyFree present).mpr filed
    obtain ⟨found, known⟩ := Option.isSome_iff_exists.mp
      (List.find?_isSome.mpr ⟨entry, present, selected⟩)
    have presentToo := List.mem_of_find?_eq_some known
    have filedToo := (selects_iff free keyFree presentToo).mp (List.find?_some known)
    have one : found = entry := List.inj_on_of_nodup_map (nodup_digests free) presentToo
      present (filedToo.trans filed.symm)
    exact ⟨found, known, one ▸ same⟩

theorem mem_of_get? {key : Key} {value : α} (found : dict.get? key = some value) :
    ∃ entry ∈ dict.entries, entry.2 = value := by
  obtain ⟨entry, selected, same⟩ := Option.map_eq_some_iff.mp found
  exact ⟨entry, List.mem_of_find?_eq_some selected, same⟩

/-- Every entry of a dict has a value under its key in another, and the two are related. -/
def Covers (related : α → β → Prop) (dict : Dict α) (other : Dict β) : Prop :=
  ∀ entry ∈ dict.entries, ∃ found, other.get? entry.1 = some found ∧ related entry.2 found

variable {other : Dict β} {related : α → β → Prop}

theorem Covers.refl (free : dict.FloatFree) {related : α → α → Prop}
    (reflexive : ∀ entry ∈ dict.entries, related entry.2 entry.2) : Covers related dict dict :=
  fun entry present => ⟨entry.2, (get?_eq_some_iff free (free entry present)).mpr
    ⟨entry, present, rfl, rfl⟩, reflexive entry present⟩

theorem Covers.turn (covers : Covers related dict other) (sizes : dict.size = other.size)
    (free : dict.FloatFree) (freeToo : other.FloatFree) :
    Covers (fun b a => related a b) other dict := by
  have subset : (dict.entries.map fun entry => entry.1.digest) ⊆
      other.entries.map fun entry => entry.1.digest := by
    intro digest member
    obtain ⟨entry, present, rfl⟩ := List.mem_map.mp member
    obtain ⟨found, known, -⟩ := covers entry present
    obtain ⟨stored, inside, filed, -⟩ :=
      (get?_eq_some_iff freeToo (free entry present)).mp known
    exact List.mem_map.mpr ⟨stored, inside, filed⟩
  have all := ((nodup_digests free).subperm subset).perm_of_length_le (by
    rw [List.length_map, List.length_map]
    exact Nat.le_of_eq sizes.symm)
  intro stored inside
  obtain ⟨entry, present, filed⟩ := List.mem_map.mp
    (all.symm.subset (List.mem_map_of_mem (f := fun entry : Key × β => entry.1.digest) inside))
  obtain ⟨found, known, holds⟩ := covers entry present
  have stays := (get?_eq_some_iff freeToo (free entry present)).mpr
    ⟨stored, inside, filed.symm, rfl⟩
  rw [known, Option.some.injEq] at stays
  exact ⟨entry.2, (get?_eq_some_iff free (freeToo stored inside)).mpr
    ⟨entry, present, filed, rfl⟩, stays ▸ holds⟩

/-- What is covered by a dict is covered by what covers that one. -/
theorem Covers.trans {γ : Type} {third : Dict γ} {relatedToo : β → γ → Prop} {joined : α → γ → Prop}
    (covers : Covers related dict other) (coversToo : Covers relatedToo other third)
    (free : dict.FloatFree) (freeToo : other.FloatFree) (freeThird : third.FloatFree)
    (joins : ∀ entry ∈ dict.entries, ∀ between ∈ other.entries, ∀ last ∈ third.entries,
      related entry.2 between.2 → relatedToo between.2 last.2 → joined entry.2 last.2) :
    Covers joined dict third := by
  intro entry present
  have keyFree := free entry present
  obtain ⟨middle, known, holds⟩ := covers entry present
  obtain ⟨between, inside, filed, rfl⟩ := (get?_eq_some_iff freeToo keyFree).mp known
  obtain ⟨value, found, holdsToo⟩ := coversToo between inside
  obtain ⟨last, insideToo, filedToo, rfl⟩ :=
    (get?_eq_some_iff freeThird (freeToo between inside)).mp found
  exact ⟨last.2, (get?_eq_some_iff freeThird keyFree).mpr
    ⟨last, insideToo, filedToo.trans filed, rfl⟩,
    joins entry present between inside last insideToo holds holdsToo⟩

end Dict

end Stepwise
