import Mathlib.Data.List.Find
import Stepwise.Proofs.Filing
import Stepwise.Proofs.Ordering.Tables

/-!
Tables that keep the order in which their keys were first inserted.

Whoever uses such a table relies on a few laws.  They hold for keys that are equal exactly if they are
filed together; for others a table promises nothing.  A dict has the laws.
-/

namespace Stepwise

def Coherent (keys : Key → Prop) : Prop :=
  ∀ a b, keys a → keys b → (a.equal b = true ↔ a.digest = b.digest)

theorem floatFree_coherent : Coherent Key.FloatFree := fun _ _ => Key.equal_iff_digest

namespace Coherent

variable {keys : Key → Prop} (coherent : Coherent keys) {a b c : Key}

include coherent

theorem equal_self (known : keys a) : a.equal a = true := (coherent a a known known).mpr rfl

theorem finds_eq (first : keys a) (second : keys b) : a.finds b = b.equal a := by
  rw [Bool.eq_iff_iff, Key.finds, Bool.and_eq_true, coherent a b first second, beq_iff_eq, and_self,
    coherent b a second first, eq_comm]

theorem equal_left_congr (first : keys a) (second : keys b) (third : keys c)
    (same : a.equal b = true) : a.equal c = b.equal c := by
  rw [Bool.eq_iff_iff, coherent a c first third, coherent b c second third,
    (coherent a b first second).mp same]

theorem equal_right_congr (first : keys a) (second : keys b) (third : keys c)
    (same : a.equal b = true) : c.equal a = c.equal b := by
  rw [Key.equal_comm c a, coherent.equal_left_congr first second third same, Key.equal_comm b c]

end Coherent

def overwritten {α : Type} (key : Key) (value : α) (entry : Key × α) : Key × α :=
  if key.equal entry.1 then (entry.1, value) else entry

theorem overwritten_fst {α : Type} (key : Key) (value : α) (entry : Key × α) :
    (overwritten key value entry).1 = entry.1 := by
  rw [overwritten]
  split <;> rfl

/-- What is relied on of tables with entries in the order of their insertion: a look-up is by equality,
a value goes to the place of the one that was there or to the end, and what is erased leaves the rest
in order. -/
structure InsertionOrdered (keys : Key → Prop) (α τ : Type) where
  entries : τ → List (Key × α)
  empty : τ
  get? : τ → Key → Option α
  insert : τ → Key → α → τ
  erase : τ → Key → τ
  entries_empty : entries empty = []
  get?_eq {table : τ} {key : Key} : (∀ entry ∈ entries table, keys entry.1) → keys key →
    get? table key = ((entries table).find? fun entry => key.equal entry.1).map (·.2)
  entries_insert {table : τ} {key : Key} {value : α} :
    (∀ entry ∈ entries table, keys entry.1) → keys key →
      entries (insert table key value) = (entries table).map (overwritten key value) ++
        if (get? table key).isSome then [] else [(key, value)]
  entries_erase {table : τ} {key : Key} : (∀ entry ∈ entries table, keys entry.1) → keys key →
    entries (erase table key) = (entries table).filter fun entry => !key.equal entry.1

namespace InsertionOrdered

variable {keys : Key → Prop} {α τ : Type} (ordered : InsertionOrdered keys α τ) {table : τ}
  {key other : Key} {value : α}

def Holds (table : τ) : Prop := ∀ entry ∈ ordered.entries table, keys entry.1

theorem empty_holds : ordered.Holds ordered.empty := by
  rw [Holds, ordered.entries_empty]
  exact List.forall_mem_nil _

variable {ordered}

theorem Holds.insert (holds : ordered.Holds table) (known : keys key) (value : α) :
    ordered.Holds (ordered.insert table key value) := by
  intro entry present
  rw [ordered.entries_insert holds known, List.mem_append] at present
  rcases present with inside | added
  · obtain ⟨old, member, rfl⟩ := List.mem_map.mp inside
    rw [overwritten_fst]
    exact holds old member
  · split at added
    · cases added
    · cases List.mem_singleton.mp added
      exact known

theorem Holds.erase (holds : ordered.Holds table) (known : keys key) :
    ordered.Holds (ordered.erase table key) := by
  intro entry present
  rw [ordered.entries_erase holds known] at present
  exact holds entry (List.mem_of_mem_filter present)

/-- A look-up compares with the keys as they were first given, so that overwriting does not matter to
it. -/
theorem find?_overwritten (key other : Key) (value : α) (entries : List (Key × α)) :
    (entries.map (overwritten key value)).find? (fun entry => other.equal entry.1) =
      (entries.find? fun entry => other.equal entry.1).map (overwritten key value) := by
  rw [List.find?_map]
  congr 2
  funext entry
  rw [Function.comp_apply, overwritten_fst]

variable (coherent : Coherent keys)

include coherent

theorem Holds.get?_insert (holds : ordered.Holds table) (known : keys key) (knownToo : keys other) :
    ordered.get? (ordered.insert table key value) other =
      if key.equal other then some value else ordered.get? table other := by
  rw [ordered.get?_eq (holds.insert known value) knownToo, ordered.entries_insert holds known,
    List.find?_append, find?_overwritten, ordered.get?_eq holds knownToo,
    ordered.get?_eq holds known]
  by_cases same : key.equal other = true
  · have alike : ((ordered.entries table).find? fun entry => key.equal entry.1) =
        (ordered.entries table).find? fun entry => other.equal entry.1 :=
      List.find?_congr fun entry present =>
        coherent.equal_left_congr known knownToo (holds entry present) same
    rw [if_pos same, alike]
    cases found : (ordered.entries table).find? fun entry : Key × α => other.equal entry.1 with
    | none =>
        simp only [Option.map_none, Option.isSome_none, Bool.false_eq_true, if_false, Option.none_or]
        rw [List.find?_cons_of_pos (by rw [Key.equal_comm]; exact same)]
        rfl
    | some entry =>
        have here : key.equal entry.1 = true := by
          have reached := List.find?_some found
          rwa [coherent.equal_left_congr known knownToo (holds entry (List.mem_of_find?_eq_some found))
            same]
        rw [Option.map_some, overwritten, if_pos here]
        rfl
  · rw [if_neg same]
    cases found : (ordered.entries table).find? fun entry : Key × α => other.equal entry.1 with
    | none =>
        rw [Option.map_none, Option.none_or]
        split
        · rfl
        · rw [List.find?_cons_of_neg (by rw [Key.equal_comm]; exact same)]
          rfl
    | some entry =>
        have apart : ¬ key.equal entry.1 = true := by
          have reached := List.find?_some found
          rwa [← coherent.equal_right_congr knownToo (holds entry (List.mem_of_find?_eq_some found))
            known reached]
        rw [Option.map_some, overwritten, if_neg apart]
        rfl

theorem Holds.get?_erase (holds : ordered.Holds table) (known : keys key) (knownToo : keys other) :
    ordered.get? (ordered.erase table key) other =
      if key.equal other then none else ordered.get? table other := by
  rw [ordered.get?_eq (holds.erase known) knownToo, ordered.entries_erase holds known,
    ordered.get?_eq holds knownToo, List.find?_filter]
  by_cases same : key.equal other = true
  · rw [if_pos same, Option.map_eq_none_iff, List.find?_eq_none]
    intro entry present
    rw [← coherent.equal_left_congr known knownToo (holds entry present) same]
    cases key.equal entry.1 <;> decide
  · rw [if_neg same]
    congr 1
    refine List.find?_congr fun entry present => ?_
    cases found : other.equal entry.1 with
    | false => simp
    | true =>
        have apart := coherent.equal_right_congr knownToo (holds entry present) known found
        simp [← apart, same]

end InsertionOrdered

namespace Dict

variable {keys : Key → Prop} (coherent : Coherent keys) {α : Type} {dict : Dict α} {key : Key}
  {value : α}

theorem eraseP_eq_filter {β : Type} {items : List β} {first second : β → Bool}
    (same : ∀ item ∈ items, first item = second item)
    (once : items.Pairwise fun a b => second a = true → second b = false) :
    items.eraseP first = items.filter fun item => !second item := by
  induction items with
  | nil => rfl
  | cons item rest inductionHypothesis =>
      obtain ⟨here, others⟩ := List.forall_mem_cons.mp same
      obtain ⟨apart, onceToo⟩ := List.pairwise_cons.mp once
      rw [List.eraseP_cons, List.filter_cons, here]
      by_cases selected : second item = true
      · have kept : rest.filter (fun item => !second item) = rest :=
          List.filter_eq_self.mpr fun later member => by rw [apart later member selected]; rfl
        rw [selected, cond_true, Bool.not_true, if_neg Bool.false_ne_true, kept]
      · rw [Bool.eq_false_iff.mpr selected, cond_false, Bool.not_false, if_pos rfl,
          inductionHypothesis others onceToo]

include coherent

/-- At most one entry of a dict has a key that is equal to a given one. -/
theorem once (holds : ∀ entry ∈ dict.entries, keys entry.1) (known : keys key) :
    dict.entries.Pairwise fun a b => key.equal a.1 = true → key.equal b.1 = false := by
  refine dict.distinct.imp_of_mem fun {a b} first second apart same => ?_
  rw [coherent.equal_left_congr known (holds a first) (holds b second) same, Key.equal_comm,
    ← coherent.finds_eq (holds a first) (holds b second), apart]

theorem selects_eq (holds : ∀ entry ∈ dict.entries, keys entry.1) (known : keys key) :
    ∀ entry ∈ dict.entries, dict.selects key entry = key.equal entry.1 := by
  intro entry present
  have same := coherent entry.1 key (holds entry present) known
  rw [Bool.eq_iff_iff, selects_eq_true_iff, Key.equal_comm key, same]
  exact and_iff_left_of_imp .inr

theorem setIn_eq {entries : List (Key × α)} (holds : ∀ entry ∈ entries, keys entry.1)
    (known : keys key)
    (once : entries.Pairwise fun a b => key.equal a.1 = true → key.equal b.1 = false) :
    setIn key value entries = entries.map (overwritten key value) ++
      if entries.any fun entry => key.equal entry.1 then [] else [(key, value)] := by
  induction entries with
  | nil => rfl
  | cons first rest inductionHypothesis =>
      obtain ⟨holdsFirst, others⟩ := List.forall_mem_cons.mp holds
      obtain ⟨apart, onceToo⟩ := List.pairwise_cons.mp once
      rw [setIn, coherent.finds_eq holdsFirst known, List.map_cons, overwritten, List.any_cons]
      by_cases here : key.equal first.1 = true
      · have kept : rest.map (overwritten key value) = rest := by
          refine (List.map_congr_left fun entry member => ?_).trans (List.map_id rest)
          rw [overwritten, apart entry member here, if_neg Bool.false_ne_true, id]
        rw [if_pos here, if_pos here, here, Bool.true_or, if_pos rfl, List.append_nil, kept]
      · rw [if_neg here, if_neg here, Bool.eq_false_iff.mpr here, Bool.false_or,
          inductionHypothesis others onceToo, List.cons_append]

omit coherent in
def insertionOrdered (coherent : Coherent keys) : InsertionOrdered keys α (Dict α) where
  entries := Dict.entries
  empty := .empty
  get? := Dict.get?
  insert := Dict.insert
  erase := Dict.erase
  entries_empty := rfl
  get?_eq holds known := by rw [get?, List.find?_congr (selects_eq coherent holds known)]
  entries_insert {dict key value} holds known := by
    rw [Dict.entries_insert, setIn_eq coherent holds known (once coherent holds known), get?,
      List.find?_congr (selects_eq coherent holds known), Option.isSome_map, List.isSome_find?]
  entries_erase {dict key} holds known :=
    eraseP_eq_filter (selects_eq coherent holds known) (once coherent holds known)

end Dict

end Stepwise
