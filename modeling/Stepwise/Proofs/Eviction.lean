import Mathlib.Data.List.DropRight
import Stepwise.Proofs.Sources

/-!
Excerpts are kept first in, first out.

Whatever is asked of a collection of excerpts, every look-up finds the lines of the function in the
source of its namespace.  The places that are kept are the latest that were put in since the collection
was cleared, in the order in which they were put in.
-/

namespace Stepwise.Record

open Script Run

/-- What is asked of a collection of excerpts. -/
inductive Query where
  | lookup (space : Namespace) (functionId : Nat)
  | clear

namespace Excerpts

/-- The places of the excerpts that are kept. -/
def places (excerpts : Excerpts) : List Place := excerpts.entries.map Prod.fst

def answer (excerpts : Excerpts) : Query → Option Excerpt
  | .lookup space functionId =>
      (excerpts.lookup space.source space.program.functions ⟨space.id, functionId⟩).1
  | .clear => none

def asked (excerpts : Excerpts) : Query → Excerpts
  | .lookup space functionId =>
      (excerpts.lookup space.source space.program.functions ⟨space.id, functionId⟩).2
  | .clear => excerpts.clear

/-- What queries that come one after another are answered with. -/
def answers (excerpts : Excerpts) : List Query → List (Option Excerpt)
  | [] => []
  | query :: rest => excerpts.answer query :: (excerpts.asked query).answers rest

/-- The collection after queries that come one after another. -/
def after (excerpts : Excerpts) : List Query → Excerpts
  | [] => excerpts
  | query :: rest => (excerpts.asked query).after rest

end Excerpts

/-- The lines with numbers from `first` to `last`, where the first of all lines is number one. -/
def linesBetween (first last : Nat) (lines : List (List Char)) : List (List Char) :=
  ((lines.zipIdx 1).filter fun line => first ≤ line.2 && line.2 ≤ last).map Prod.fst

namespace Query

/-- The lines of the function that is asked for, straight from the source of its namespace. -/
def extracted : Query → Option Excerpt
  | .lookup space functionId => (space.program.functions[functionId]?).map fun definition =>
      let first := max definition.firstLine 1
      let last := max definition.lastLine first
      ⟨first, (linesBetween first last (Text.lines space.source.toList)).map String.ofList⟩
  | .clear => none

/-- The places that have been put in since the last time all were given up, oldest first.  Of these, as
many as there is room for are still there, and a known function that is not among them is put in. -/
def putIn (room : Nat) (log : List Place) : Query → List Place
  | .lookup space functionId =>
      if functionId < space.program.functions.length ∧ ⟨space.id, functionId⟩ ∉ log.rtake room then
        log ++ [⟨space.id, functionId⟩]
      else log
  | .clear => []

def Distinct (queries : List Query) : Prop :=
  ∀ space functionId, lookup space functionId ∈ queries → ∀ other otherId,
    lookup other otherId ∈ queries → space.id = other.id →
    space.source = other.source ∧ space.program = other.program

end Query

theorem filter_zipIdx_between (first last start : Nat) (lines : List (List Char)) :
    ((lines.zipIdx start).filter fun line => first ≤ line.2 && line.2 ≤ last).map Prod.fst =
      (lines.drop (first - start)).take (last + 1 - max first start) := by
  induction lines generalizing start with
  | nil => simp
  | cons line lines inductionHypothesis =>
      rw [List.zipIdx_cons, List.filter_cons]
      by_cases before : start < first
      · obtain ⟨more, rfl⟩ : ∃ more, first = start + 1 + more := ⟨first - (start + 1), by omega⟩
        have skipped : start + 1 + more - start = more + 1 := by omega
        have outside : ¬ (start + 1 + more ≤ start) := by omega
        simp only [outside, decide_false, Bool.false_and, Bool.false_eq_true, if_false,
          inductionHypothesis, skipped, List.drop_succ_cons, Nat.add_sub_cancel_left,
          Nat.max_eq_left (Nat.le_add_right (start + 1) more),
          Nat.max_eq_left (Nat.le_of_lt before)]
      · have reached : first ≤ start := Nat.le_of_not_lt before
        have none : first - start = 0 := Nat.sub_eq_zero_of_le reached
        have noneNext : first - (start + 1) = 0 := by omega
        by_cases inside : start ≤ last
        · obtain ⟨left, rfl⟩ : ∃ left, last = start + left := ⟨last - start, by omega⟩
          have count : start + left + 1 - start = left + 1 := by omega
          have countNext : start + left + 1 - (start + 1) = left := by omega
          simp only [reached, inside, decide_true, Bool.and_self, if_true, List.map_cons,
            inductionHypothesis, none, noneNext, List.drop_zero, Nat.max_eq_right reached,
            Nat.max_eq_right (Nat.le_succ_of_le reached), count, countNext, List.take_succ_cons]
        · have count : last + 1 - start = 0 := by omega
          have countNext : last + 1 - (start + 1) = 0 := by omega
          simp only [inside, decide_false, Bool.and_false, Bool.false_eq_true, if_false,
            inductionHypothesis, Nat.max_eq_right reached,
            Nat.max_eq_right (Nat.le_succ_of_le reached), count, countNext, List.take_zero]

theorem Excerpt.ofDefinition_eq (source : String) (definition : Definition) :
    ofDefinition source definition =
      ⟨max definition.firstLine 1, (linesBetween (max definition.firstLine 1)
        (max definition.lastLine (max definition.firstLine 1))
        (Text.lines source.toList)).map String.ofList⟩ := by
  have count : max definition.lastLine (max definition.firstLine 1) + 1 -
      max (max definition.firstLine 1) 1 =
        definition.lastLine - max definition.firstLine 1 + 1 := by omega
  rw [ofDefinition, linesBetween, filter_zipIdx_between, count]

namespace Excerpts

theorem size_eq (excerpts : Excerpts) : excerpts.size = excerpts.places.length := by
  rw [places, List.length_map, size]

theorem find?_eq_none_iff {excerpts : Excerpts} {place : Place} :
    excerpts.find? place = none ↔ place ∉ excerpts.places := by
  rw [find?, List.lookup_eq_none_iff, places, List.mem_map]
  constructor
  · rintro absent ⟨entry, member, rfl⟩
    exact bne_iff_ne.mp (absent entry member) rfl
  · exact fun absent entry member => bne_iff_ne.mpr fun same => absent ⟨entry, member, same.symm⟩

section

variable {excerpts : Excerpts} {source : String} {functions : List Definition} {place : Place}

theorem lookup_of_found {excerpt : Excerpt} (found : excerpts.find? place = some excerpt) :
    excerpts.lookup source functions place = (some excerpt, excerpts) := by
  simp only [lookup, found]

theorem lookup_of_unknown (missed : excerpts.find? place = none)
    (unknown : functions[place.functionId]? = none) :
    excerpts.lookup source functions place = (none, excerpts) := by
  simp only [lookup, missed, unknown]

theorem lookup_of_known {definition : Definition} (missed : excerpts.find? place = none)
    (known : functions[place.functionId]? = some definition) :
    excerpts.lookup source functions place =
      (some (.ofDefinition source definition),
        excerpts.push place (.ofDefinition source definition)) := by
  simp only [lookup, missed, known]

end

theorem asked_eq_self {excerpts : Excerpts} {space : Namespace} {functionId : Nat}
    (idle : ⟨space.id, functionId⟩ ∈ excerpts.places ∨
      space.program.functions[functionId]? = none) :
    excerpts.asked (.lookup space functionId) = excerpts := by
  rw [Excerpts.asked]
  cases found : excerpts.find? ⟨space.id, functionId⟩ with
  | some excerpt => rw [lookup_of_found found]
  | none =>
      rcases idle with kept | unknown
      · exact absurd kept (find?_eq_none_iff.mp found)
      · rw [lookup_of_unknown found unknown]

/-- Putting an excerpt in makes its place the latest of those that there is room for. -/
theorem places_push {room : Nat} {log : List Place} {excerpts : Excerpts}
    (full : excerpts.capacity = room + 1) (latest : excerpts.places = log.rtake (room + 1))
    (place : Place) (excerpt : Excerpt) :
    (excerpts.push place excerpt).places = (log ++ [place]).rtake (room + 1) := by
  have count : excerpts.size = min (room + 1) log.length := by
    rw [size_eq, latest, List.rtake, List.length_drop]
    omega
  have kept : (if excerpts.capacity ≤ excerpts.size then excerpts.entries.drop 1
      else excerpts.entries).map Prod.fst = log.rtake room := by
    unfold places at latest
    rw [full, count]
    split
    · rw [List.map_drop, latest, List.rtake, List.rtake, List.drop_drop]
      congr 1
      omega
    · rw [latest, List.rtake, List.rtake]
      congr 1
      omega
  rw [List.rtake_concat_succ, ← kept]
  exact List.map_append

/-- A query finds what it asks for, and leaves a collection that keeps the latest places.  The
collection has room for one excerpt at least, and all that it keeps is right. -/
structure Latest (queries : List Query) (room : Nat) (log : List Place) (excerpts : Excerpts) :
    Prop where
  capacity : excerpts.capacity = room + 1
  places : excerpts.places = log.rtake (room + 1)
  faithful : ∀ space functionId, Query.lookup space functionId ∈ queries → excerpts.Faithful space

namespace Latest

variable {queries : List Query} {room : Nat} {log : List Place} {excerpts : Excerpts}
  (latest : excerpts.Latest queries room log)

include latest

theorem answer {query : Query} (member : query ∈ queries) :
    excerpts.answer query = query.extracted := by
  cases query with
  | clear => rfl
  | lookup space functionId =>
      have faithful := latest.faithful space functionId member
      rw [Excerpts.answer, Query.extracted]
      cases known : space.program.functions[functionId]? with
      | some definition =>
          rw [faithful.lookup_fst known, Excerpt.ofDefinition_eq, Option.map_some]
      | none =>
          cases found : excerpts.find? ⟨space.id, functionId⟩ with
          | none => rw [lookup_of_unknown found known, Option.map_none]
          | some excerpt =>
              obtain ⟨definition, defined, -⟩ := faithful _ (mem_of_find? found) rfl
              cases known.symm.trans defined

theorem asked (distinct : Query.Distinct queries) {query : Query} (member : query ∈ queries) :
    (excerpts.asked query).Latest queries room (query.putIn (room + 1) log) := by
  cases query with
  | clear => exact ⟨latest.capacity, by simp [Excerpts.asked, clear, Excerpts.places, Query.putIn],
      fun _ _ _ => List.forall_mem_nil _⟩
  | lookup space functionId =>
      rw [Query.putIn, ← latest.places]
      split
      · rename_i fresh
        obtain ⟨known, absent⟩ := fresh
        have missed := find?_eq_none_iff.mpr absent
        have defined := List.getElem?_eq_getElem known
        have result : excerpts.asked (.lookup space functionId) =
            excerpts.push ⟨space.id, functionId⟩
              (.ofDefinition space.source space.program.functions[functionId]) := by
          rw [Excerpts.asked, lookup_of_known missed defined]
        rw [result]
        refine ⟨latest.capacity, places_push latest.capacity latest.places _ _, ?_⟩
        intro other otherId otherMember
        refine forall_mem_push (latest.faithful other otherId otherMember) fun same => ?_
        obtain ⟨source, program⟩ := distinct space functionId member other otherId otherMember same
        rw [← source, ← program]
        exact ⟨_, defined, rfl⟩
      · rename_i idle
        rw [asked_eq_self]
        · exact latest
        · rw [not_and_or, not_lt, not_not] at idle
          exact idle.symm.imp id List.getElem?_eq_none

theorem answers (distinct : Query.Distinct queries) {rest : List Query} (part : rest ⊆ queries) :
    excerpts.answers rest = rest.map Query.extracted := by
  induction rest generalizing excerpts log with
  | nil => rfl
  | cons query rest inductionHypothesis =>
      obtain ⟨member, part⟩ := List.cons_subset.mp part
      rw [Excerpts.answers, latest.answer member, List.map_cons,
        inductionHypothesis (latest.asked distinct member) part]

theorem after (distinct : Query.Distinct queries) {rest : List Query} (part : rest ⊆ queries) :
    (excerpts.after rest).Latest queries room (rest.foldl (Query.putIn (room + 1)) log) := by
  induction rest generalizing excerpts log with
  | nil => exact latest
  | cons query rest inductionHypothesis =>
      obtain ⟨member, part⟩ := List.cons_subset.mp part
      exact inductionHypothesis (latest.asked distinct member) part

end Latest

end Excerpts

/-- A collection of excerpts shows in no answer, is bounded, and gives up its oldest excerpts first.

Whatever comes one after another, look-ups in any namespaces and clearings, each look-up gives the lines
of the function straight from the source.  Then at most as many excerpts are kept as there is room for,
one at least; they are the latest that were put in since the last clearing, in this order; and asking
for one of them again, or for a function that is not known, changes nothing. -/
theorem lookups_first_in_first_out (capacity : Nat) (queries : List Query)
    (distinct : Query.Distinct queries) :
    (Excerpts.ofCapacity capacity).answers queries = queries.map Query.extracted ∧
    let room := max capacity 1
    let excerpts := (Excerpts.ofCapacity capacity).after queries
    excerpts.size ≤ room ∧
    excerpts.places = (queries.foldl (Query.putIn room) []).rtake room ∧
    ∀ space functionId, ⟨space.id, functionId⟩ ∈ excerpts.places ∨
      space.program.functions[functionId]? = none →
      excerpts.asked (.lookup space functionId) = excerpts := by
  obtain ⟨room, same⟩ : ∃ room, max capacity 1 = room + 1 := ⟨max capacity 1 - 1, by omega⟩
  have start : (Excerpts.ofCapacity capacity).Latest queries room [] :=
    ⟨same, (List.rtake_nil _).symm, fun _ _ _ => List.forall_mem_nil _⟩
  have ended := start.after distinct (List.Subset.refl queries)
  rw [same]
  refine ⟨start.answers distinct (List.Subset.refl queries), ?_, ended.places,
    fun _ _ => Excerpts.asked_eq_self⟩
  rw [Excerpts.size_eq, ended.places, List.rtake, List.length_drop]
  omega

/-- A namespace with a function of one line, which is preceded by so many blank lines. -/
def singleLineSpace (id blank : Nat) : Namespace :=
  ⟨id, String.ofList (List.replicate blank '\n') ++ "def f(): pass",
    ⟨[⟨0, "f", [], [.mk (blank + 1) true .pass], blank + 1, blank + 1, []⟩], []⟩, .empty, .empty⟩

/-- There is room for one excerpt, which the look-up in the other namespace takes each time. -/
theorem lookups_first_in_first_out_alternating :
    let queries : List Query := [.lookup (singleLineSpace 1 0) 0, .lookup (singleLineSpace 2 3) 0,
      .lookup (singleLineSpace 1 0) 0, .lookup (singleLineSpace 2 3) 1]
    let excerpts := (Excerpts.ofCapacity 0).after queries
    Query.Distinct queries ∧
      (Excerpts.ofCapacity 0).answers queries = queries.map Query.extracted ∧
      excerpts.size ≤ 1 ∧ excerpts.places = [⟨1, 0⟩] := by
  intro queries excerpts
  have distinct : Query.Distinct queries := by
    intro space functionId member other otherId otherMember same
    simp only [queries, List.mem_cons, Query.lookup.injEq, List.not_mem_nil, or_false]
      at member otherMember
    rcases member with ⟨rfl, -⟩ | ⟨rfl, -⟩ | ⟨rfl, -⟩ | ⟨rfl, -⟩ <;>
      rcases otherMember with ⟨rfl, -⟩ | ⟨rfl, -⟩ | ⟨rfl, -⟩ | ⟨rfl, -⟩ <;>
      first | exact ⟨rfl, rfl⟩ | cases same
  obtain ⟨answers, bounded, places, -⟩ := lookups_first_in_first_out 0 queries distinct
  exact ⟨distinct, answers, bounded, places.trans (by decide)⟩

end Stepwise.Record
