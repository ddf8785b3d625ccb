import Mathlib
import Stepwise.Run.Methods

/-!
The words of a text.

A word is a run of characters that are no white space, as long as it can be.  Cutting a text at every
run of white space and cutting it word by word up to a limit see the same words.
-/

namespace Stepwise.Text

section

variable {text : List Char} {place : Nat}

def BlankAt (text : List Char) (place : Nat) : Prop :=
  ∃ c, text[place]? = some c ∧ isBlank c = true

def VisibleAt (text : List Char) (place : Nat) : Prop :=
  ∃ c, text[place]? = some c ∧ isBlank c = false

theorem BlankAt.not_visibleAt (blank : BlankAt text place) : ¬ VisibleAt text place := by
  rintro ⟨c, found, visible⟩
  obtain ⟨d, same, blank⟩ := blank
  rw [found, Option.some.injEq] at same
  rw [← same, visible] at blank
  cases blank

theorem VisibleAt.lt_length (visible : VisibleAt text place) : place < text.length := by
  obtain ⟨c, found, -⟩ := visible
  exact (List.getElem?_eq_some_iff.mp found).1

theorem blankAt_of_not_visibleAt (inside : place < text.length) (hidden : ¬ VisibleAt text place) :
    BlankAt text place := by
  refine ⟨text[place], List.getElem?_eq_getElem inside, ?_⟩
  by_contra visible
  exact hidden ⟨_, List.getElem?_eq_getElem inside, Bool.eq_false_of_not_eq_true visible⟩

def piece (text : List Char) (span : Nat × Nat) : List Char := text.extract span.1 span.2

theorem getElem?_of_mem_piece {start stop : Nat} {c : Char} (member : c ∈ piece text (start, stop)) :
    ∃ place, start ≤ place ∧ place < stop ∧ text[place]? = some c := by
  rw [piece, List.extract_eq_take_drop] at member
  obtain ⟨offset, found⟩ := List.mem_iff_getElem?.mp member
  obtain ⟨inside, -⟩ := List.getElem?_eq_some_iff.mp found
  have near : offset < stop - start := (List.length_take_le _ _).trans_lt' inside
  rw [List.getElem?_take_of_lt near, List.getElem?_drop] at found
  exact ⟨start + offset, by omega, by omega, found⟩

theorem drop_eq_piece_append {start stop : Nat} (order : start ≤ stop) :
    text.drop start = piece text (start, stop) ++ text.drop stop := by
  have behind : text.drop stop = (text.drop start).drop (stop - start) := by
    rw [List.drop_drop, Nat.add_sub_cancel' order]
  rw [piece, List.extract_eq_take_drop, behind, List.take_append_drop]

end

structure IsWord (text : List Char) (start stop : Nat) : Prop where
  nonempty : start < stop
  visible : ∀ place, start ≤ place → place < stop → VisibleAt text place
  before : start = 0 ∨ BlankAt text (start - 1)
  behind : stop = text.length ∨ BlankAt text stop

inductive WordsFrom (text : List Char) : Nat → List (Nat × Nat) → Prop where
  | none {place : Nat} :
      (∀ other, place ≤ other → ¬ VisibleAt text other) → WordsFrom text place []
  | next {place start stop : Nat} {others : List (Nat × Nat)} :
      place ≤ start → (∀ other, place ≤ other → other < start → BlankAt text other) →
      IsWord text start stop → WordsFrom text stop others →
      WordsFrom text place ((start, stop) :: others)

namespace IsWord

variable {text : List Char} {start stop other last : Nat}

theorem not_visibleAt_stop (word : IsWord text start stop) : ¬ VisibleAt text stop := by
  rcases word.behind with whole | blank
  · intro visible
    exact absurd visible.lt_length (by omega)
  · exact blank.not_visibleAt

theorem unique (word : IsWord text start stop) (second : IsWord text other last)
    (after : start ≤ other) (inside : other < stop) : other = start ∧ last = stop := by
  have first : other = start := by
    by_contra later
    rcases second.before with rfl | blank
    · omega
    · exact blank.not_visibleAt (word.visible _ (by omega) (by omega))
  refine ⟨first, ?_⟩
  rcases lt_trichotomy last stop with less | same | more
  · have reached := second.nonempty
    exact absurd (word.visible last (by omega) less) second.not_visibleAt_stop
  · exact same
  · exact absurd (second.visible stop (by omega) more) word.not_visibleAt_stop

end IsWord

namespace WordsFrom

variable {text : List Char} {place : Nat} {spans : List (Nat × Nat)}

theorem mem_iff (words : WordsFrom text place spans) (start stop : Nat) :
    (start, stop) ∈ spans ↔ IsWord text start stop ∧ place ≤ start := by
  induction words with
  | none hidden =>
      simp only [List.not_mem_nil, false_iff, not_and]
      intro word after
      exact hidden start after (word.visible start (Nat.le_refl start) word.nonempty)
  | @next place first last others order gap found _ inductionHypothesis =>
      rw [List.mem_cons, inductionHypothesis, Prod.mk.injEq]
      have reached := found.nonempty
      constructor
      · rintro (⟨rfl, rfl⟩ | ⟨word, after⟩)
        · exact ⟨found, order⟩
        · exact ⟨word, by omega⟩
      · rintro ⟨word, after⟩
        have visible := word.visible start (Nat.le_refl start) word.nonempty
        by_cases early : start < first
        · exact absurd visible (gap start after early).not_visibleAt
        by_cases behind : last ≤ start
        · exact .inr ⟨word, behind⟩
        · exact .inl (found.unique word (by omega) (by omega))

theorem pairwise (words : WordsFrom text place spans) :
    spans.Pairwise fun first second => first.2 ≤ second.1 := by
  induction words with
  | none => exact .nil
  | next _ _ _ others inductionHypothesis =>
      refine .cons ?_ inductionHypothesis
      rintro ⟨start, stop⟩ member
      exact ((others.mem_iff start stop).mp member).2

theorem exists_spans (text : List Char) (place : Nat)
    (outside : place = 0 ∨ ¬ VisibleAt text place) : ∃ spans, WordsFrom text place spans := by
  classical
  by_cases hidden : ∀ other, place ≤ other → ¬ VisibleAt text other
  · exact ⟨[], .none hidden⟩
  push Not at hidden
  obtain ⟨order, visible⟩ := Nat.find_spec hidden
  have gap (other : Nat) (after : place ≤ other) (early : other < Nat.find hidden) :
      BlankAt text other :=
    blankAt_of_not_visibleAt (early.trans visible.lt_length)
      fun seen => Nat.find_min hidden early ⟨after, seen⟩
  generalize Nat.find hidden = start at *
  have ends : ∃ stop, start ≤ stop ∧ ¬ VisibleAt text stop :=
    ⟨text.length, visible.lt_length.le, fun seen => absurd seen.lt_length (lt_irrefl _)⟩
  obtain ⟨reached, ended⟩ := Nat.find_spec ends
  have run (other : Nat) (after : start ≤ other) (inside : other < Nat.find ends) :
      VisibleAt text other := by
    by_contra unseen
    exact Nat.find_min ends inside ⟨after, unseen⟩
  have within : Nat.find ends ≤ text.length :=
    Nat.find_min' ends ⟨visible.lt_length.le, fun seen => absurd seen.lt_length (lt_irrefl _)⟩
  generalize Nat.find ends = stop at *
  have nonempty : start < stop := by
    refine lt_of_le_of_ne reached ?_
    rintro rfl
    exact ended visible
  have word : IsWord text start stop := by
    refine ⟨nonempty, run, ?_, ?_⟩
    · by_cases moved : place < start
      · exact .inr (gap (start - 1) (by omega) (by omega))
      · obtain rfl : place = start := by omega
        exact .inl (outside.resolve_right fun unseen => unseen visible)
    · by_cases whole : stop = text.length
      · exact .inl whole
      · exact .inr (blankAt_of_not_visibleAt (by omega) ended)
  have shorter : text.length - stop < text.length - place := by
    have := visible.lt_length
    omega
  obtain ⟨others, rest⟩ := exists_spans text stop (.inr ended)
  exact ⟨(start, stop) :: others, .next order gap word rest⟩
termination_by text.length - place

end WordsFrom

section

variable {gap word rest : List Char} (blank : ∀ c ∈ gap, isBlank c = true)
  (visible : ∀ c ∈ word, isBlank c = false) (ends : ∀ c, rest.head? = some c → isBlank c = true)

include blank in
theorem words_append_of_blank : words (gap ++ rest) = words rest := by
  induction gap with
  | nil => rfl
  | cons c gap inductionHypothesis =>
      have first : words (c :: (gap ++ rest)) = words (gap ++ rest) :=
        if_pos (blank c List.mem_cons_self)
      rw [List.cons_append, first]
      exact inductionHypothesis fun d member => blank d (List.mem_cons_of_mem c member)

include visible ends in
theorem words_append_of_visible (nonempty : word ≠ []) :
    words (word ++ rest) = word :: words rest := by
  induction word with
  | nil => exact absurd rfl nonempty
  | cons c word inductionHypothesis =>
      have shown : ¬ isBlank c = true := by simp [visible c List.mem_cons_self]
      -- a word goes on exactly if the character behind is no white space
      have first : words (c :: (word ++ rest)) = _ := if_neg shown
      rw [List.cons_append, first]
      cases word with
      | nil =>
          cases rest with
          | nil => rfl
          | cons next rest =>
              have behind : isBlank next = true := ends next rfl
              rw [List.nil_append]
              cases words (next :: rest) with
              | nil => rfl
              | cons _ _ => exact if_pos behind
      | cons next word =>
          have others := inductionHypothesis
            (fun d member => visible d (List.mem_cons_of_mem c member)) (List.cons_ne_nil next word)
          have behind : ¬ isBlank next = true := by
            simp [visible next (List.mem_cons_of_mem c List.mem_cons_self)]
          rw [others]
          exact if_neg behind

include blank in
theorem dropWhile_isBlank_append (shown : ∀ c, rest.head? = some c → isBlank c = false) :
    (gap ++ rest).dropWhile isBlank = rest := by
  rw [List.dropWhile_append_of_pos blank]
  cases rest with
  | nil => rfl
  | cons c rest => exact List.dropWhile_cons_of_neg (by simp [shown c rfl])

include blank visible ends in
theorem wordsUpTo_append (nonempty : word ≠ []) (limit : Nat) :
    wordsUpTo limit (gap ++ (word ++ rest)) =
      match limit with
      | 0 => [word ++ rest]
      | limit + 1 => word :: wordsUpTo limit rest := by
  obtain ⟨c, others, rfl⟩ := List.exists_cons_of_ne_nil nonempty
  have trimmed : (gap ++ (c :: others ++ rest)).dropWhile isBlank = c :: others ++ rest := by
    apply dropWhile_isBlank_append blank
    rintro d ⟨⟩
    exact visible c List.mem_cons_self
  have shown : ∀ d ∈ c :: others, (!isBlank d) = true := fun d member => by simp [visible d member]
  have stops : rest.takeWhile (fun d => !isBlank d) = [] ∧
      rest.dropWhile (fun d => !isBlank d) = rest := by
    cases rest with
    | nil => exact ⟨rfl, rfl⟩
    | cons d rest =>
        have hidden : ¬ (!isBlank d) = true := by simp [ends d rfl]
        exact ⟨List.takeWhile_cons_of_neg hidden, List.dropWhile_cons_of_neg hidden⟩
  rw [wordsUpTo, trimmed]
  cases limit with
  | zero => rfl
  | succ limit =>
      simp only [List.cons_append]
      rw [← List.cons_append, List.takeWhile_append_of_pos shown, List.dropWhile_append_of_pos shown,
        stops.1, stops.2, List.append_nil]

end

theorem wordsUpTo_of_blank {text : List Char} (blank : ∀ c ∈ text, isBlank c = true) (limit : Nat) :
    wordsUpTo limit text = [] := by
  rw [wordsUpTo, List.dropWhile_eq_nil_iff.mpr blank]

namespace WordsFrom

variable {text : List Char} {place : Nat} {spans : List (Nat × Nat)}

/-- Both ways of cutting see these words.  The one with a limit keeps the text from the first word
beyond the limit on. -/
theorem cuts (listed : WordsFrom text place spans) :
    words (text.drop place) = spans.map (piece text) ∧
      ∀ limit, wordsUpTo limit (text.drop place) =
        (spans.take limit).map (piece text) ++
          ((spans[limit]?).map fun span => text.drop span.1).toList := by
  induction listed with
  | @none place hidden =>
      have blank (c : Char) (member : c ∈ text.drop place) : isBlank c = true := by
        obtain ⟨offset, found⟩ := List.mem_iff_getElem?.mp member
        rw [List.getElem?_drop] at found
        by_contra visible
        exact hidden (place + offset) (Nat.le_add_right _ _)
          ⟨c, found, Bool.eq_false_of_not_eq_true visible⟩
      refine ⟨?_, fun limit => by simp [wordsUpTo_of_blank blank limit]⟩
      have none : words (text.drop place ++ []) = words [] := words_append_of_blank blank
      rwa [List.append_nil] at none
  | @next place start stop others order gap word _ inductionHypothesis =>
      have split : text.drop place = piece text (place, start) ++ text.drop start :=
        drop_eq_piece_append order
      have first : text.drop start = piece text (start, stop) ++ text.drop stop :=
        drop_eq_piece_append word.nonempty.le
      have blank (c : Char) (member : c ∈ piece text (place, start)) : isBlank c = true := by
        obtain ⟨other, after, early, found⟩ := getElem?_of_mem_piece member
        obtain ⟨d, same, blank⟩ := gap other after early
        rw [found, Option.some.injEq] at same
        exact same ▸ blank
      have visible (c : Char) (member : c ∈ piece text (start, stop)) : isBlank c = false := by
        obtain ⟨other, after, inside, found⟩ := getElem?_of_mem_piece member
        obtain ⟨d, same, visible⟩ := word.visible other after inside
        rw [found, Option.some.injEq] at same
        exact same ▸ visible
      have ends (c : Char) (found : (text.drop stop).head? = some c) : isBlank c = true := by
        rw [List.head?_drop] at found
        by_contra visible
        exact word.not_visibleAt_stop ⟨c, found, Bool.eq_false_of_not_eq_true visible⟩
      have nonempty : piece text (start, stop) ≠ [] := by
        have inside := (word.visible start (Nat.le_refl start) word.nonempty).lt_length
        have := word.nonempty
        rw [piece, List.extract_eq_take_drop, Ne, List.take_eq_nil_iff, List.drop_eq_nil_iff]
        omega
      rw [split, first]
      constructor
      · rw [words_append_of_blank blank, words_append_of_visible visible ends nonempty,
          inductionHypothesis.1, List.map_cons]
      · intro limit
        rw [wordsUpTo_append blank visible ends nonempty]
        cases limit with
        | zero => simp [first]
        | succ limit =>
            simp only [inductionHypothesis.2 limit, List.take_succ_cons, List.map_cons,
              List.getElem?_cons_succ, List.cons_append]

end WordsFrom

end Stepwise.Text

namespace Stepwise.Run

open Stepwise.Run.Action

theorem strMethod_split_blanks (content : String) (limit : Int64) (heap : Heap) :
    strMethod content "split" [.none, .int limit] heap =
      newList ((if limit.toInt < 0 then Text.words content.toList
        else Text.wordsUpTo limit.toInt.toNat content.toList).map ofText) heap := rfl

/-- Every text has its words, in order, and `split` cuts it into them: into all of them if there is no
limit or they are within the limit, or else into those up to the limit and the text from the next one
on. -/
theorem split_words (content : String) (heap : Heap) :
    let text := content.toList
    ∃ spans : List (Nat × Nat),
      (∀ start stop, (start, stop) ∈ spans ↔ Text.IsWord text start stop) ∧
        (spans.Pairwise fun first second => first.2 ≤ second.1) ∧
        (∀ arguments ∈ [[], [Value.none]], strMethod content "split" arguments heap =
          newList ((spans.map (Text.piece text)).map ofText) heap) ∧
        ∀ limit : Int64,
          (limit.toInt < 0 ∨ (spans.length : Int) ≤ limit.toInt →
            strMethod content "split" [.none, .int limit] heap =
              newList ((spans.map (Text.piece text)).map ofText) heap) ∧
          ∀ (count : Nat) (next : Nat × Nat), limit.toInt = count → spans[count]? = some next →
            strMethod content "split" [.none, .int limit] heap =
              newList (((spans.take count).map (Text.piece text) ++ [text.drop next.1]).map ofText)
                heap := by
  intro text
  obtain ⟨spans, listed⟩ := Text.WordsFrom.exists_spans text 0 (.inl rfl)
  obtain ⟨all, upTo⟩ := listed.cuts
  rw [List.drop_zero] at all upTo
  have unlimited (arguments : List Value) (member : arguments ∈ [[], [Value.none]]) :
      strMethod content "split" arguments heap =
        newList ((spans.map (Text.piece text)).map ofText) heap := by
    rw [← all]
    simp only [List.mem_cons, List.not_mem_nil, or_false] at member
    rcases member with rfl | rfl <;> rfl
  refine ⟨spans, fun start stop => ?_, listed.pairwise, unlimited, fun limit => ⟨?_, ?_⟩⟩
  · rw [listed.mem_iff, and_iff_left (Nat.zero_le start)]
  · intro within
    rw [strMethod_split_blanks]
    by_cases negative : limit.toInt < 0
    · rw [if_pos negative, all]
    · have inside : spans.length ≤ limit.toInt.toNat := by omega
      rw [if_neg negative, upTo, List.take_of_length_le inside, List.getElem?_eq_none inside]
      simp
  · intro count next same found
    rw [strMethod_split_blanks, if_neg (by omega), upTo, same, Int.toNat_natCast, found]
    rfl

end Stepwise.Run
