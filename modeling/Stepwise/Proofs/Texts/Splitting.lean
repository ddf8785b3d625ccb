import Mathlib
import Stepwise.Proofs.Twins.Action
import Stepwise.Run.Methods

/-!
Texts around the occurrences of a separator.

Splitting, counting and replacing cut a text at the leftmost occurrence and go on behind it.  So they
see the same occurrences, and joining the pieces gives back the text.
-/

namespace Stepwise.Text

variable {separator text before after : List Char}

theorem cut?_eq_none_iff : cut? separator text = none ↔ ¬ separator <:+: text := by
  induction text with
  | nil => simp [cut?]
  | cons c rest inductionHypothesis =>
      rw [List.infix_cons_iff, not_or, ← inductionHypothesis, ← List.isPrefixOf_iff_prefix]
      by_cases here : separator.isPrefixOf (c :: rest) = true
      · simp [cut?, here]
      · simp [cut?, here]

theorem not_infix_of_cut? (nonempty : separator ≠ [])
    (found : cut? separator text = some (before, after)) : ¬ separator <:+: before := by
  induction text generalizing before with
  | nil => simp [cut?, nonempty] at found
  | cons c rest inductionHypothesis =>
      by_cases here : separator.isPrefixOf (c :: rest) = true
      · simp only [cut?, here, if_true, Option.some.injEq, Prod.mk.injEq] at found
        obtain ⟨rfl, -⟩ := found
        rwa [List.infix_nil]
      · simp only [cut?, here] at found
        obtain ⟨sides, inner, equality⟩ := Option.map_eq_some_iff.mp found
        obtain ⟨rfl, rfl⟩ := Prod.mk.injEq .. ▸ equality
        rw [List.infix_cons_iff, not_or]
        refine ⟨fun leading => here (List.isPrefixOf_iff_prefix.mpr ?_), inductionHypothesis inner⟩
        -- an occurrence at the front of the part is one at the front of the whole
        have whole := eq_of_cut? inner
        apply leading.trans
        rw [whole, List.append_assoc]
        exact List.prefix_append (c :: sides.1) _

theorem cut_induction {motive : List Char → Prop} (nonempty : separator ≠ [])
    (last : ∀ text, cut? separator text = none → motive text)
    (next : ∀ text before after, cut? separator text = some (before, after) → motive after →
      motive text) (text : List Char) : motive text := by
  cases found : cut? separator text with
  | none => exact last text found
  | some sides =>
      have shorter := length_lt_of_cut? nonempty found
      exact next text sides.1 sides.2 found (cut_induction nonempty last next sides.2)
termination_by text.length

section

variable (nonempty : separator ≠ []) (absent : cut? separator text = none)

include nonempty absent

theorem split_of_absent : split separator text = [text] := by
  rw [split, dif_pos nonempty]
  split
  next => rfl
  next found => cases absent ▸ found

theorem count_of_absent : count separator text = 0 := by
  rw [count, dif_pos nonempty]
  split
  next => rfl
  next found => cases absent ▸ found

theorem replace_of_absent (new : List Char) : replace separator new text = text := by
  rw [replace, dif_pos nonempty]
  split
  next => rfl
  next found => cases absent ▸ found

end

section

variable (nonempty : separator ≠ []) (found : cut? separator text = some (before, after))

include nonempty found

theorem split_of_found : split separator text = before :: split separator after := by
  rw [split, dif_pos nonempty]
  split
  next absent => cases absent ▸ found
  next here => cases here ▸ found; rfl

theorem count_of_found : count separator text = count separator after + 1 := by
  rw [count, dif_pos nonempty]
  split
  next absent => cases absent ▸ found
  next here => cases here ▸ found; rfl

theorem replace_of_found (new : List Char) :
    replace separator new text = before ++ new ++ replace separator new after := by
  rw [replace, dif_pos nonempty]
  split
  next absent => cases absent ▸ found
  next here => cases here ▸ found; rfl

end

theorem join_cons {pieces : List (List Char)} (more : pieces ≠ []) (first : List Char) :
    join separator (first :: pieces) = first ++ separator ++ join separator pieces := by
  obtain ⟨second, others, rfl⟩ := List.exists_cons_of_ne_nil more
  simp [join, List.intercalate]

theorem splitUpTo_ne_nil (limit : Nat) : splitUpTo separator limit text ≠ [] := by
  cases limit with
  | zero => exact List.cons_ne_nil _ _
  | succ limit =>
      rw [splitUpTo]
      cases cut? separator text <;> exact List.cons_ne_nil _ _

/-- Joining the pieces gives back the text, however many cuts there were. -/
theorem join_splitUpTo (limit : Nat) : join separator (splitUpTo separator limit text) = text := by
  induction limit generalizing text with
  | zero => simp [splitUpTo, join, List.intercalate]
  | succ limit inductionHypothesis =>
      rw [splitUpTo]
      cases found : cut? separator text with
      | none => simp [join, List.intercalate]
      | some sides =>
          rw [join_cons (splitUpTo_ne_nil limit), inductionHypothesis, eq_of_cut? found]

section

variable (nonempty : separator ≠ []) (text)

include nonempty

theorem length_split : (split separator text).length = count separator text + 1 := by
  induction text using cut_induction nonempty with
  | last text absent => rw [split_of_absent nonempty absent, count_of_absent nonempty absent]; rfl
  | next text before after found inductionHypothesis =>
      rw [split_of_found nonempty found, count_of_found nonempty found, List.length_cons,
        inductionHypothesis]

theorem count_le_length : count separator text ≤ text.length := by
  induction text using cut_induction nonempty with
  | last text absent => rw [count_of_absent nonempty absent]; exact Nat.zero_le _
  | next text before after found inductionHypothesis =>
      rw [count_of_found nonempty found]
      exact inductionHypothesis.trans_lt (length_lt_of_cut? nonempty found)

theorem split_ne_nil : split separator text ≠ [] := by
  rw [← List.length_pos_iff, length_split text nonempty]
  exact Nat.succ_pos _

theorem join_split : join separator (split separator text) = text := by
  induction text using cut_induction nonempty with
  | last text absent => simp [split_of_absent nonempty absent, join, List.intercalate]
  | next text before after found inductionHypothesis =>
      rw [split_of_found nonempty found, join_cons (split_ne_nil after nonempty),
        inductionHypothesis, eq_of_cut? found]

theorem not_infix_of_mem_split : ∀ part ∈ split separator text, ¬ separator <:+: part := by
  induction text using cut_induction nonempty with
  | last text absent =>
      rw [split_of_absent nonempty absent, List.forall_mem_singleton]
      exact cut?_eq_none_iff.mp absent
  | next text before after found inductionHypothesis =>
      rw [split_of_found nonempty found, List.forall_mem_cons]
      exact ⟨not_infix_of_cut? nonempty found, inductionHypothesis⟩

theorem replace_eq_join (new : List Char) :
    replace separator new text = join new (split separator text) := by
  induction text using cut_induction nonempty with
  | last text absent =>
      simp [split_of_absent nonempty absent, replace_of_absent nonempty absent, join,
        List.intercalate]
  | next text before after found inductionHypothesis =>
      rw [split_of_found nonempty found, replace_of_found nonempty found,
        join_cons (split_ne_nil after nonempty), inductionHypothesis]

/-- With a limit there are as many cuts as it allows, and up to the last one the pieces are the same. -/
theorem splitUpTo_cuts (limit : Nat) :
    (splitUpTo separator limit text).length = min limit (count separator text) + 1 ∧
      (splitUpTo separator limit text).take (min limit (count separator text)) =
        (split separator text).take (min limit (count separator text)) := by
  induction limit generalizing text with
  | zero => simp [splitUpTo]
  | succ limit inductionHypothesis =>
      rw [splitUpTo]
      cases found : cut? separator text with
      | none => simp [count_of_absent nonempty found]
      | some sides =>
          obtain ⟨length, same⟩ := inductionHypothesis sides.2
          rw [count_of_found nonempty found, split_of_found nonempty found, Nat.add_min_add_right]
          exact ⟨congrArg (· + 1) length, congrArg (sides.1 :: ·) same⟩

end

end Stepwise.Text

namespace Stepwise.Run

open Stepwise.Run.Action

theorem joinedTexts_apply (pieces : List (List Char)) (position : Nat) (heap : Heap) :
    joinedTexts position (pieces.map ofText) heap = some (.ok pieces, heap) := by
  induction pieces generalizing position with
  | nil => rfl
  | cons piece rest inductionHypothesis =>
      rw [List.map_cons, ofText, joinedTexts, bind_apply, inductionHypothesis, String.toList_ofList]
      rfl

theorem strMethod_join {heap : Heap} {ref : Nat} {pieces : List (List Char)}
    (listed : (heap.list ref).toList = pieces.map ofText) (glue : String) :
    strMethod glue "join" [.list ref] heap =
      some (.ok (ofText (Text.join glue.toList pieces)), heap) := by
  have items : itemsOf (.list ref) heap = some (.ok (pieces.map ofText), heap) := by
    rw [← listed]
    rfl
  change (do return ofText (Text.join glue.toList (← joinedTexts 0 (← itemsOf (.list ref))))) heap = _
  rw [bind_apply, items]
  simp only
  rw [bind_apply, joinedTexts_apply]
  rfl

/-- A method answers with a new list, which holds these texts. -/
structure GivesTexts (answer : Option (Except RuntimeError Value × Heap)) (ref : Nat) (after : Heap)
    (texts : List (List Char)) : Prop where
  answer : answer = some (.ok (.list ref), after)
  listed : (after.list ref).toList = texts.map ofText

theorem newList_givesTexts (texts : List (List Char)) (heap : Heap) :
    GivesTexts (newList (texts.map ofText) heap) heap.lists.size
      (heap.newList (texts.map ofText).toArray).2 texts := by
  refine ⟨rfl, ?_⟩
  rw [Heap.list_newList, List.toList_toArray]

def piecesAround (separator text : List Char) (limit : Int) : List (List Char) :=
  if limit < 0 then Text.split separator text else Text.splitUpTo separator limit.toNat text

theorem strMethod_split {separator : String} (filled : separator ≠ "") (content : String)
    (limit : Int64) (heap : Heap) :
    strMethod content "split" [.str separator, .int limit] heap =
      newList ((piecesAround separator.toList content.toList limit.toInt).map ofText) heap := by
  have nonempty : separator.toList.isEmpty = false := by simpa using filled
  change (do newList ((← splitText content.toList (some (.str separator)) limit.toInt).map ofText))
    heap = _
  have given : textArgument "split" (.str separator) = (pure separator.toList : Action _) := rfl
  rw [splitText, given, pure_bind, nonempty, piecesAround]
  · by_cases unlimited : limit.toInt < 0
    · simp only [unlimited, if_true]
      rfl
    · simp only [unlimited, if_false]
      rfl
  · exact nofun

theorem strMethod_split_unlimited {separator : String} (content : String) (heap : Heap) :
    strMethod content "split" [.str separator] heap =
      strMethod content "split" [.str separator, .int (-1)] heap := rfl

theorem strMethod_count (content separator : String) (heap : Heap) :
    strMethod content "count" [.str separator] heap =
      some (.ok (.int (Int64.ofNat (Text.count separator.toList content.toList))), heap) := rfl

theorem strMethod_replace (content old new : String) (heap : Heap) :
    strMethod content "replace" [.str old, .str new] heap =
      some (.ok (ofText (Text.replace old.toList new.toList content.toList)), heap) := rfl

/-- Joining the pieces of a split by the separator gives back the text, whatever the limit is.  Without
a limit there is one piece more than `count` tells, none of them has the separator, and joining them by
another text is replacing the separator by it.  With a limit there is one piece more than the limit and
`count` allow, and all but the last of them are the same as without. -/
theorem split_rejoins (content separator new : String) (filled : separator ≠ "") (heap : Heap) :
    ∃ (count : Nat) (parts : List (List Char)),
      strMethod content "count" [.str separator] heap =
          some (.ok (.int (Int64.ofNat count)), heap) ∧
        count ≤ content.length ∧ parts.length = count + 1 ∧
        (∀ part ∈ parts, ¬ separator.toList <:+: part) ∧
        (∃ ref after replaced, GivesTexts (strMethod content "split" [.str separator] heap) ref after
            parts ∧
          strMethod content "replace" [.str separator, .str new] heap =
            some (.ok replaced, heap) ∧
          strMethod new "join" [.list ref] after = some (.ok replaced, after)) ∧
        ∀ limit : Int64, ∃ ref after pieces,
          GivesTexts (strMethod content "split" [.str separator, .int limit] heap) ref after pieces ∧
            strMethod separator "join" [.list ref] after = some (.ok (.str content), after) ∧
            (limit.toInt < 0 → pieces = parts) ∧
            ∀ most : Nat, limit.toInt = most →
              pieces.length = min most count + 1 ∧
                pieces.take (min most count) = parts.take (min most count) := by
  have nonempty : separator.toList ≠ [] := by simpa using filled
  have joins {heap : Heap} {ref : Nat} {pieces : List (List Char)} (glue : String)
      (listed : (heap.list ref).toList = pieces.map ofText) := strMethod_join listed glue
  let parts := Text.split separator.toList content.toList
  have unlimited : GivesTexts (strMethod content "split" [.str separator] heap) heap.lists.size
      (heap.newList (parts.map ofText).toArray).2 parts := by
    rw [strMethod_split_unlimited, strMethod_split filled]
    exact newList_givesTexts parts heap
  refine ⟨Text.count separator.toList content.toList, parts,
    strMethod_count content separator heap, ?_, Text.length_split _ nonempty,
    Text.not_infix_of_mem_split _ nonempty, ⟨_, _, _, unlimited, strMethod_replace .., ?_⟩, ?_⟩
  · rw [← String.length_toList]
    exact Text.count_le_length _ nonempty
  · rw [strMethod_join unlimited.listed, Text.replace_eq_join _ nonempty]
  intro limit
  have gives := newList_givesTexts (piecesAround separator.toList content.toList limit.toInt) heap
  rw [← strMethod_split filled] at gives
  refine ⟨_, _, _, gives, ?_, ?_, ?_⟩
  · have whole : Text.join separator.toList
        (piecesAround separator.toList content.toList limit.toInt) = content.toList := by
      unfold piecesAround
      split
      · exact Text.join_split _ nonempty
      · exact Text.join_splitUpTo _
    rw [strMethod_join gives.listed, whole, ofText, String.ofList_toList]
  · intro negative
    exact if_pos negative
  · intro most same
    have upTo : piecesAround separator.toList content.toList limit.toInt =
        Text.splitUpTo separator.toList most content.toList := by
      rw [piecesAround, if_neg (by omega), same, Int.toNat_natCast]
    rw [upTo]
    exact Text.splitUpTo_cuts _ nonempty most

/-- A separator that overlaps itself, and a limit of one cut. -/
theorem split_rejoins_overlapping :
    "aa" ≠ "" ∧ ∃ (count : Nat) (parts : List (List Char)),
      strMethod "aaaaa" "count" [.str "aa"] .empty =
          some (.ok (.int (Int64.ofNat count)), .empty) ∧
        parts.length = count + 1 ∧
        ∃ ref after pieces,
          GivesTexts (strMethod "aaaaa" "split" [.str "aa", .int 1] .empty) ref after pieces ∧
            strMethod "aa" "join" [.list ref] after = some (.ok (.str "aaaaa"), after) ∧
            pieces.length = min 1 count + 1 := by
  have filled : "aa" ≠ "" := by decide
  obtain ⟨count, parts, counted, -, length, -, -, limited⟩ :=
    split_rejoins "aaaaa" "aa" "b" filled .empty
  obtain ⟨ref, after, pieces, gives, joined, -, upTo⟩ := limited 1
  exact ⟨filled, count, parts, counted, length, ref, after, pieces, gives, joined, (upTo 1 rfl).1⟩

end Stepwise.Run
