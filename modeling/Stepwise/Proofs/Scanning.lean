import Stepwise.Script.Lexer
import Stepwise.Text.Lines

/-!
Where tokens stand in the source.

The lines of tokens never decrease, and a token with a text of its own stands on a line of the source
that has this text on it.
-/

namespace Stepwise.Text

/-- A character other than a line feed is on the line that the line feeds before it count up to. -/
theorem linesFrom_getElem? {before after : List Char} {c : Char} (visible : c ≠ '\n')
    (line : List Char) :
    ∃ text, (linesFrom line (before ++ c :: after))[before.count '\n']? = some text := by
  induction before generalizing line with
  | nil =>
      -- the line that holds the character is one of the lines, whatever ends it
      have held : ∀ (rest line : List Char), line ≠ [] → ∃ text, (linesFrom line rest)[0]? = some text := by
        intro rest
        induction rest with
        | nil =>
            intro line filled
            simp [linesFrom, filled]
        | cons d rest inductionHypothesis =>
            intro line filled
            unfold linesFrom
            split
            · exact ⟨_, rfl⟩
            · exact inductionHypothesis (d :: line) (List.cons_ne_nil _ _)
      simp only [List.nil_append, List.count_nil]
      unfold linesFrom
      rw [if_neg visible]
      exact held after (c :: line) (List.cons_ne_nil _ _)
  | cons d before inductionHypothesis =>
      by_cases feed : d = '\n'
      · obtain ⟨text, found⟩ := inductionHypothesis []
        refine ⟨text, ?_⟩
        rw [List.cons_append, linesFrom, if_pos feed, feed, List.count_cons_self]
        exact found
      · obtain ⟨text, found⟩ := inductionHypothesis (d :: line)
        refine ⟨text, ?_⟩
        rw [List.cons_append, linesFrom, if_neg feed, List.count_cons_of_ne feed]
        exact found

end Stepwise.Text

namespace Stepwise.Script

namespace Position

theorem after_line (position : Position) (c : Char) :
    (position.after c).line = position.line + [c].count '\n' := by
  unfold after
  by_cases feed : c = '\n' <;> simp [feed]

theorem past_line (position : Position) (text : List Char) :
    (position.past text).line = position.line + text.count '\n' := by
  induction text generalizing position with
  | nil => rfl
  | cons c rest inductionHypothesis =>
      have moved : position.past (c :: rest) = (position.after c).past rest := rfl
      rw [moved, inductionHypothesis, after_line, ← List.singleton_append (l := rest),
        List.count_append, Nat.add_assoc]

end Position

/-- Whether a token is written in the source; the others mark the layout of lines, or the end. -/
def TokenKind.isWritten : TokenKind → Bool
  | .newline | .indent | .dedent | .endOfInput => false
  | _ => true

/-- A text whose first line has the number `first` has a character on a line. -/
def Inhabits (first : Nat) (text : List Char) (line : Nat) : Prop :=
  ∃ before c after, text = before ++ c :: after ∧ c ≠ '\n' ∧ line = first + before.count '\n'

theorem Inhabits.behind {first line : Nat} {text : List Char} (skipped : List Char)
    (inhabits : Inhabits (first + skipped.count '\n') text line) :
    Inhabits first (skipped ++ text) line := by
  obtain ⟨before, c, after, rfl, visible, rfl⟩ := inhabits
  refine ⟨skipped ++ before, c, after, (List.append_assoc ..).symm, visible, ?_⟩
  rw [List.count_append, Nat.add_assoc]

structure Stand (first : Nat) (text : List Char) (tokens : List Token) : Prop where
  ordered : tokens.Pairwise fun earlier later => earlier.position.line ≤ later.position.line
  least : ∀ token ∈ tokens, first ≤ token.position.line
  inhabits : ∀ token ∈ tokens, token.kind.isWritten = true →
    Inhabits first text token.position.line

namespace Stand

variable {first : Nat} {text : List Char} {tokens : List Token}

theorem behind (skipped : List Char)
    (stand : Stand (first + skipped.count '\n') text tokens) :
    Stand first (skipped ++ text) tokens where
  ordered := stand.ordered
  least token member := Nat.le_trans (Nat.le_add_right _ _) (stand.least token member)
  inhabits token member written := (stand.inhabits token member written).behind skipped

theorem past {position : Position} (skipped : List Char)
    (stand : Stand (position.past skipped).line text tokens) :
    Stand position.line (skipped ++ text) tokens := by
  rw [position.past_line] at stand
  exact stand.behind skipped

theorem after {position : Position} {c : Char} (stand : Stand (position.after c).line text tokens) :
    Stand position.line (c :: text) tokens := stand.past [c]

/-- Tokens at the front of the text that stand on its first line. -/
theorem append {front : List Token} (stand : Stand first text tokens)
    (here : ∀ token ∈ front, token.position.line = first)
    (inhabits : ∀ token ∈ front, token.kind.isWritten = true → Inhabits first text first) :
    Stand first text (front ++ tokens) where
  ordered := by
    refine List.pairwise_append.mpr ⟨?_, stand.ordered, ?_⟩
    · refine List.pairwise_of_forall_mem_list fun earlier memberEarlier later memberLater => ?_
      exact Nat.le_of_eq ((here earlier memberEarlier).trans (here later memberLater).symm)
    · intro earlier memberEarlier later memberLater
      rw [here earlier memberEarlier]
      exact stand.least later memberLater
  least token member := by
    rcases List.mem_append.mp member with member | member
    · exact Nat.le_of_eq (here token member).symm
    · exact stand.least token member
  inhabits token member written := by
    rcases List.mem_append.mp member with member | member
    · rw [here token member]
      exact inhabits token member written
    · exact stand.inhabits token member written

theorem append_unwritten {front : List Token} (stand : Stand first text tokens)
    (here : ∀ token ∈ front, token.position.line = first ∧ token.kind.isWritten = false) :
    Stand first text (front ++ tokens) :=
  stand.append (fun token member => (here token member).1) fun token member written => by
    rw [(here token member).2] at written
    cases written

theorem nil : Stand first text [] := ⟨.nil, nofun, nofun⟩

end Stand

theorem LineState.lineEnd_unwritten (state : LineState) (position : Position) :
    ∀ token ∈ state.lineEnd position,
      token.position.line = position.line ∧ token.kind.isWritten = false := by
  unfold lineEnd
  split
  · intro token member
    rw [List.mem_singleton.mp member]
    exact ⟨rfl, rfl⟩
  · nofun

theorem LineState.finish_unwritten {state : LineState} {position : Position} {tokens : List Token}
    (ended : state.finish position = .ok tokens) :
    ∀ token ∈ tokens, token.position.line = position.line ∧ token.kind.isWritten = false := by
  unfold finish at ended
  split at ended
  · cases ended
  · cases ended
    intro token member
    rcases List.mem_append.mp member with member | member
    · rcases List.mem_append.mp member with member | member
      · exact state.lineEnd_unwritten position token member
      · obtain ⟨_, _, rfl⟩ := List.mem_map.mp member
        exact ⟨rfl, rfl⟩
    · rw [List.mem_singleton.mp member]
      exact ⟨rfl, rfl⟩

theorem LineState.finish_stands {state : LineState} {position : Position} {tokens : List Token}
    (ended : state.finish position = .ok tokens) (text : List Char) :
    Stand position.line text tokens := by
  rw [← List.append_nil tokens]
  exact Stand.nil.append_unwritten (finish_unwritten ended)

theorem LineState.indentTo_unwritten {state after : LineState} {width line : Nat}
    {tokens : List Token} (ended : state.indentTo width line = .ok (tokens, after)) :
    ∀ token ∈ tokens, token.position.line = line ∧ token.kind.isWritten = false := by
  unfold indentTo at ended
  simp only at ended
  split at ended
  · cases ended
    intro token member
    rw [List.mem_singleton.mp member]
    exact ⟨rfl, rfl⟩
  · split at ended
    · cases ended
      intro token member
      obtain ⟨_, _, rfl⟩ := List.mem_map.mp member
      exact ⟨rfl, rfl⟩
    · cases ended

theorem ok_of_bind_ok {ε α β : Type} {first : Except ε α} {next : α → Except ε β} {answer : β}
    (ended : (first >>= next) = .ok answer) : ∃ value, first = .ok value ∧ next value = .ok answer := by
  cases first with
  | error error => cases ended
  | ok value => exact ⟨value, rfl, ended⟩

theorem dropWhile_eq_cons {drop : Char → Bool} {text rest : List Char} {c : Char}
    (found : text.dropWhile drop = c :: rest) : text = text.takeWhile drop ++ c :: rest := by
  rw [← found, List.takeWhile_append_dropWhile]

theorem count_continuation {c : Char} (backslash : (c == '\\') = true) (rest : List Char) :
    (c :: rest.takeWhile (· == '\r') ++ ['\n']).count '\n' = 1 := by
  have returned : (rest.takeWhile (· == '\r')).count '\n' = 0 := by
    refine List.count_eq_zero.mpr fun member => ?_
    have carriage := List.all_eq_true.mp List.all_takeWhile _ member
    cases carriage
  have visible : c ≠ '\n' := by
    rw [beq_iff_eq.mp backslash]
    decide
  rw [List.cons_append, List.count_cons_of_ne visible, List.count_append, returned]
  rfl

theorem scan_stands {state : LineState} {fresh : Bool} {position : Position} {text : List Char}
    {tokens : List Token} (ended : scan state fresh position text = .ok tokens) :
    Stand position.line text tokens := by
  fun_induction scan state fresh position text generalizing tokens
  -- at the front of a line
  case case1 state position text blanks here found =>
      have stand := (state.finish_stands ended []).past blanks
      rwa [← found, List.takeWhile_append_dropWhile] at stand
  case case2 state position text blanks here c rest found _ inductionHypothesis =>
      have stand := (inductionHypothesis ended).after.past blanks
      rwa [← dropWhile_eq_cons found] at stand
  case case3 state position text blanks here c rest found _ _ inductionHypothesis =>
      have stand := ((inductionHypothesis ended).past (c :: rest.takeWhile isInLine)).past blanks
      rwa [List.cons_append, List.takeWhile_append_dropWhile, ← dropWhile_eq_cons found] at stand
  case case4 state position text blanks here c rest found _ _ inductionHypothesis =>
      obtain ⟨⟨front, after⟩, indented, ended⟩ := ok_of_bind_ok ended
      obtain ⟨others, scanned, ended⟩ := ok_of_bind_ok ended
      cases ended
      have stand := ((inductionHypothesis after scanned).append_unwritten
        (LineState.indentTo_unwritten indented)).past blanks
      rwa [← dropWhile_eq_cons found] at stand
  -- inside a line
  case case5 state fresh position _ => exact state.finish_stands ended []
  case case6 state fresh position _ c rest _ inductionHypothesis =>
      exact (inductionHypothesis ended).after
  case case7 state fresh position _ c rest _ _ inductionHypothesis =>
      have stand := (inductionHypothesis ended).past (c :: rest.takeWhile isInLine)
      rwa [List.cons_append, List.takeWhile_append_dropWhile] at stand
  case case8 state fresh position _ c rest _ _ backslash more found inductionHypothesis =>
      have stand := inductionHypothesis ended
      simp only [← count_continuation backslash rest] at stand
      have whole := stand.behind (c :: rest.takeWhile (· == '\r') ++ ['\n'])
      rwa [List.append_assoc, List.singleton_append, List.cons_append,
        ← dropWhile_eq_cons found] at whole
  case case9 => cases ended
  case case10 state fresh position _ c rest _ _ _ _ _ inductionHypothesis =>
      obtain ⟨others, scanned, ended⟩ := ok_of_bind_ok ended
      cases ended
      have stand := (inductionHypothesis scanned).after
      exact stand.append_unwritten (state.lineEnd_unwritten position)
  case case11 state fresh position _ c rest _ _ _ _ _ inductionHypothesis =>
      exact (inductionHypothesis ended).after
  case case12 => cases ended
  case case13 state fresh position _ c rest _ _ _ visible lexeme _ inductionHypothesis =>
      obtain ⟨after, -, ended⟩ := ok_of_bind_ok ended
      obtain ⟨others, scanned, ended⟩ := ok_of_bind_ok ended
      cases ended
      have stand := (inductionHypothesis after scanned).past ((c :: rest).take lexeme.length)
      rw [List.take_append_drop] at stand
      have feed : c ≠ '\n' := fun same => visible (beq_iff_eq.mpr same)
      have written : Inhabits position.line (c :: rest) position.line := ⟨[], c, rest, rfl, feed, rfl⟩
      show Stand position.line (c :: rest) ([⟨lexeme.kind, position⟩] ++ others)
      exact stand.append (fun token member => by rw [List.mem_singleton.mp member]) fun _ _ _ => written

/-- A line of a text on which there is a character is one of its lines. -/
theorem Inhabits.line {text : List Char} {line : Nat} (inhabits : Inhabits 1 text line) :
    1 ≤ line ∧ ∃ content, (Text.lines text)[line - 1]? = some content := by
  obtain ⟨before, c, after, rfl, visible, rfl⟩ := inhabits
  refine ⟨Nat.le_add_right _ _, ?_⟩
  rw [Nat.add_sub_cancel_left]
  exact Text.linesFrom_getElem? visible []

theorem tokenize_stands {source : String} {tokens : List Token}
    (tokenized : tokenize source = .ok tokens) : Stand 1 source.toList tokens :=
  scan_stands tokenized

end Stepwise.Script
