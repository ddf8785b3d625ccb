import Stepwise.Proofs.Twins.Heap

/-!
Values with ordered keys.

The canonical form of a value has the keys of every object in code point order, each of them once and
with its last value.  Every value has at most one, and the members of objects that are handed to
scripts are in this order.
-/

namespace Stepwise

section Members

variable {α β : Type}

def lastMember? (key : String) (members : List (String × α)) : Option (String × α) :=
  members.reverse.find? fun member => member.1 == key

theorem lastMember?_cons (key : String) (first : String × α) (rest : List (String × α)) :
    lastMember? key (first :: rest) =
      (lastMember? key rest).or (if first.1 = key then some first else none) := by
  rw [lastMember?, List.reverse_cons, List.find?_append, List.find?_singleton]
  simp only [beq_iff_eq, lastMember?]

theorem key_of_lastMember? {key : String} {members : List (String × α)} {member : String × α}
    (found : lastMember? key members = some member) : member.1 = key :=
  beq_iff_eq.mp (List.find?_some (p := fun member : String × α => member.1 == key) found)

theorem isSome_lastMember? {key : String} {members : List (String × α)} :
    (lastMember? key members).isSome = members.any fun member => member.1 == key := by
  rw [lastMember?, Bool.eq_iff_iff, List.find?_isSome, List.any_eq_true]
  simp only [List.mem_reverse]

theorem lastMember?_map (change : α → β) (key : String) (members : List (String × α)) :
    lastMember? key (members.map fun member => (member.1, change member.2)) =
      (lastMember? key members).map fun member => (member.1, change member.2) := by
  rw [lastMember?, ← List.map_reverse, List.find?_map]
  rfl

theorem exists_lastMember? {key : String} {members : List (String × α)}
    (known : key ∈ members.map Prod.fst) : ∃ value, lastMember? key members = some (key, value) := by
  obtain ⟨member, inside, same⟩ := List.mem_map.mp known
  have found : (lastMember? key members).isSome = true := by
    rw [isSome_lastMember?, List.any_eq_true]
    exact ⟨member, inside, beq_iff_eq.mpr same⟩
  obtain ⟨last, found⟩ := Option.isSome_iff_exists.mp found
  exact ⟨last.2, by rw [found, ← key_of_lastMember? found]⟩

theorem mem_lastMembers_iff {members : List (String × α)} {member : String × α} :
    member ∈ lastMembers members ↔ lastMember? member.1 members = some member := by
  induction members with
  | nil => simp [lastMembers, lastMember?]
  | cons first rest inductionHypothesis =>
      have again : (rest.any fun later => later.1 == first.1) =
          (lastMember? first.1 rest).isSome := isSome_lastMember?.symm
      rw [lastMember?_cons, lastMembers, again]
      by_cases same : first.1 = member.1
      · rw [same, if_pos rfl]
        cases found : lastMember? member.1 rest with
        | none =>
            have replaced : member ∉ lastMembers rest := by simp [inductionHypothesis, found]
            simp [replaced, eq_comm]
        | some last => simp [inductionHypothesis, found]
      · have apart : member ≠ first := fun equal => same (by rw [equal])
        rw [if_neg same, Option.or_none, ← inductionHypothesis]
        split
        next => rfl
        next => simp [apart]

theorem ascending_canonicalMembers (members : List (String × α)) :
    ((canonicalMembers members).map Prod.fst).Pairwise (· < ·) := by
  have sorted : (canonicalMembers members).Pairwise fun a b => (!decide (b.1 < a.1)) = true := by
    apply List.pairwise_mergeSort
    · simp only [Bool.not_eq_true', decide_eq_false_iff_not, String.not_lt]
      exact fun a b c => String.le_trans
    · simp only [Bool.or_eq_true, Bool.not_eq_true', decide_eq_false_iff_not, String.not_lt]
      exact fun a b => String.le_total a.1 b.1
  have once : ((canonicalMembers members).map Prod.fst).Nodup :=
    List.pairwise_map.mpr (canonicalMembers_apart members)
  have ordered : ((canonicalMembers members).map Prod.fst).Pairwise fun a b => ¬ b < a :=
    List.pairwise_map.mpr (sorted.imp fun below => by simpa using below)
  refine once.imp₂ (fun a b apart below => ?_) ordered
  exact Decidable.by_contra fun above =>
    apart (String.le_antisymm (String.not_lt.mp below) (String.not_lt.mp above))

theorem mem_canonicalMembers_iff {members : List (String × α)} {member : String × α} :
    member ∈ canonicalMembers members ↔ lastMember? member.1 members = some member := by
  rw [canonicalMembers, List.mem_mergeSort, mem_lastMembers_iff]

theorem keys_canonicalMembers {members : List (String × α)} {key : String} :
    key ∈ (canonicalMembers members).map Prod.fst ↔ key ∈ members.map Prod.fst := by
  constructor
  · rw [List.mem_map, List.mem_map]
    rintro ⟨member, kept, same⟩
    exact ⟨member, mem_canonicalMembers kept, same⟩
  · intro known
    obtain ⟨value, found⟩ := exists_lastMember? known
    exact List.mem_map.mpr ⟨(key, value), mem_canonicalMembers_iff.mpr found, rfl⟩

theorem canonicalMembers_map (change : α → β) (members : List (String × α)) :
    canonicalMembers (members.map fun member => (member.1, change member.2)) =
      (canonicalMembers members).map fun member => (member.1, change member.2) := by
  have kept : lastMembers (members.map fun member => (member.1, change member.2)) =
      (lastMembers members).map fun member => (member.1, change member.2) := by
    induction members with
    | nil => rfl
    | cons first rest inductionHypothesis =>
        simp only [List.map_cons, lastMembers, List.any_map, Function.comp_def, inductionHypothesis]
        split <;> rfl
  rw [canonicalMembers, canonicalMembers, kept]
  refine (List.map_mergeSort (f := fun member : String × α => (member.1, change member.2)) ?_).symm
  exact fun _ _ _ _ => rfl

end Members

namespace Json

def isScalar : Json → Bool
  | .array _ | .object _ => false
  | _ => true

/-- One value is another in canonical form: in every object the keys ascend, and each has the
canonical form of its last value. -/
inductive Canonical : Json → Json → Prop where
  | scalar {json : Json} (plain : json.isScalar = true) : Canonical json json
  | array {items sorted : List Json} (long : items.length = sorted.length)
      (each : ∀ (index : Nat) (item other : Json), items[index]? = some item →
        sorted[index]? = some other → Canonical item other) :
      Canonical (.array items) (.array sorted)
  | object {members sorted : List (String × Json)}
      (ascending : (sorted.map Prod.fst).Pairwise (· < ·))
      (keys : ∀ key, key ∈ sorted.map Prod.fst ↔ key ∈ members.map Prod.fst)
      (last : ∀ key value other, (Json.object members).member? key = some value →
        (key, other) ∈ sorted → Canonical value other) :
      Canonical (.object members) (.object sorted)

theorem member?_eq_lastMember? (key : String) (members : List (String × Json)) :
    (Json.object members).member? key = (lastMember? key members).map (·.2) := rfl

theorem eq_of_ascending {keys others : List String} (ascending : keys.Pairwise (· < ·))
    (ascendingToo : others.Pairwise (· < ·)) (same : ∀ key, key ∈ keys ↔ key ∈ others) :
    keys = others := by
  have apart {a b : String} (below : a < b) : a ≠ b := by
    rintro rfl
    exact String.lt_irrefl a below
  have permuted : keys.Perm others :=
    (List.perm_ext_iff_of_nodup (ascending.imp apart) (ascendingToo.imp apart)).mpr same
  refine permuted.eq_of_pairwise (fun a b _ _ below above => ?_) ascending ascendingToo
  exact absurd (String.lt_trans below above) (String.lt_irrefl a)

theorem Canonical.unique {json sorted other : Json} (first : Canonical json sorted)
    (second : Canonical json other) : sorted = other := by
  induction first generalizing other with
  | scalar plain =>
      cases second with
      | scalar => rfl
      | _ => cases plain
  | array long each inductionHypothesis =>
      cases second with
      | scalar plain => cases plain
      | array longToo eachToo =>
          refine congrArg Json.array <|
            List.ext_getElem (long ▸ longToo) fun index inside insideToo => ?_
          have source := List.getElem?_eq_getElem (long ▸ inside)
          have here := List.getElem?_eq_getElem inside
          have there := List.getElem?_eq_getElem insideToo
          exact inductionHypothesis index _ _ source here (eachToo index _ _ source there)
  | @object members sorted ascending keys last inductionHypothesis =>
      cases second with
      | scalar plain => cases plain
      | @object _ others ascendingToo keysToo lastToo =>
          have sameKeys : sorted.map Prod.fst = others.map Prod.fst :=
            eq_of_ascending ascending ascendingToo fun key => (keys key).trans (keysToo key).symm
          have long : sorted.length = others.length := by simpa using congrArg List.length sameKeys
          refine congrArg Json.object (List.ext_getElem long fun index inside insideToo => ?_)
          have sameKey : sorted[index].1 = others[index].1 := by
            have found := congrArg (fun keys => keys[index]?) sameKeys
            simpa [inside, insideToo] using found
          have here : (sorted[index].1, sorted[index].2) ∈ sorted := List.getElem_mem inside
          have there : (sorted[index].1, others[index].2) ∈ others :=
            sameKey ▸ List.getElem_mem insideToo
          obtain ⟨value, found⟩ := exists_lastMember? ((keys _).mp (List.mem_map_of_mem here))
          have final : (Json.object members).member? sorted[index].1 = some value := by
            rw [member?_eq_lastMember?, found, Option.map_some]
          exact Prod.ext sameKey (inductionHypothesis _ _ _ final here (lastToo _ _ _ final there))

end Json

end Stepwise
