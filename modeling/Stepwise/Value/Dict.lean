import Stepwise.Value.Key

/-!
Dicts: entries in the order in which their keys were first inserted.

Setting a key that is present keeps its place and the key as it was first given, so a look-up can
always tell the keys of a dict apart.
-/

namespace Stepwise

/-- Entries of keys and values, each key filed once. -/
@[ext]
structure Dict (α : Type) where
  entries : List (Key × α)
  distinct : entries.Pairwise fun a b => a.1.finds b.1 = false

namespace Dict

variable {α : Type}

def empty : Dict α := ⟨[], .nil⟩

def size (dict : Dict α) : Nat := dict.entries.length

def keys (dict : Dict α) : List Key := dict.entries.map (·.1)

def values (dict : Dict α) : List α := dict.entries.map (·.2)

/-- Whether an entry is the one that a look-up for `key` finds.  A single entry is found by equality
alone; among several, the key has to be filed under the same digest. -/
def selects (dict : Dict α) (key : Key) (entry : Key × α) : Bool :=
  match dict.entries with
  | [_] => entry.1.equal key
  | _ => entry.1.finds key

def get? (dict : Dict α) (key : Key) : Option α :=
  (dict.entries.find? (dict.selects key)).map (·.2)

def contains (dict : Dict α) (key : Key) : Bool := (dict.get? key).isSome

theorem selects_eq_true_iff {dict : Dict α} {key : Key} {entry : Key × α} :
    dict.selects key entry = true ↔
      entry.1.equal key = true ∧ (dict.size = 1 ∨ entry.1.digest = key.digest) := by
  rw [size, selects]
  split
  · next single => simp [single]
  · next several =>
      have notSingle : dict.entries.length ≠ 1 := fun one =>
        (List.length_eq_one_iff.mp one).elim several
      rw [Key.finds, Bool.and_eq_true, beq_iff_eq, and_comm, or_iff_right notSingle]

theorem contains_iff {dict : Dict α} {key : Key} :
    dict.contains key = true ↔ ∃ entry ∈ dict.entries, dict.selects key entry = true := by
  rw [contains, get?, Option.isSome_map, List.find?_isSome]

def setIn (key : Key) (value : α) : List (Key × α) → List (Key × α)
  | [] => [(key, value)]
  | entry :: rest =>
      if entry.1.finds key then (entry.1, value) :: rest else entry :: setIn key value rest

/-- The keys after an entry was set are those from before, and at most the key that was set. -/
theorem mem_setIn {key : Key} {value : α} {entries : List (Key × α)} {entry : Key × α}
    (present : entry ∈ setIn key value entries) :
    entry.1 = key ∨ ∃ old ∈ entries, old.1 = entry.1 := by
  induction entries with
  | nil =>
      cases List.mem_singleton.mp present
      exact .inl rfl
  | cons first rest inductionHypothesis =>
      rw [setIn] at present
      split at present
      · rcases List.mem_cons.mp present with rfl | inside
        · exact .inr ⟨first, List.mem_cons_self, rfl⟩
        · exact .inr ⟨entry, List.mem_cons_of_mem first inside, rfl⟩
      · rcases List.mem_cons.mp present with rfl | inside
        · exact .inr ⟨entry, List.mem_cons_self, rfl⟩
        · exact (inductionHypothesis inside).imp_right fun ⟨old, member, same⟩ =>
            ⟨old, List.mem_cons_of_mem first member, same⟩

theorem setIn_distinct {key : Key} {value : α} {entries : List (Key × α)}
    (distinct : entries.Pairwise fun a b => a.1.finds b.1 = false) :
    (setIn key value entries).Pairwise fun a b => a.1.finds b.1 = false := by
  induction entries with
  | nil => exact List.pairwise_singleton _ _
  | cons first rest inductionHypothesis =>
      obtain ⟨apart, others⟩ := List.pairwise_cons.mp distinct
      rw [setIn]
      split
      · exact List.pairwise_cons.mpr ⟨apart, others⟩
      · next missed =>
          refine List.pairwise_cons.mpr ⟨fun entry inside => ?_, inductionHypothesis others⟩
          rcases mem_setIn inside with same | ⟨old, member, same⟩
          · rw [same]
            exact Bool.eq_false_iff.mpr missed
          · exact same ▸ apart old member

def insert (dict : Dict α) (key : Key) (value : α) : Dict α :=
  ⟨setIn key value dict.entries, setIn_distinct dict.distinct⟩

theorem entries_insert (dict : Dict α) (key : Key) (value : α) :
    (dict.insert key value).entries = setIn key value dict.entries := rfl

/-- The dict without a key; the other entries keep their order. -/
def erase (dict : Dict α) (key : Key) : Dict α :=
  ⟨dict.entries.eraseP (dict.selects key), dict.distinct.sublist List.eraseP_sublist⟩

end Dict

end Stepwise
