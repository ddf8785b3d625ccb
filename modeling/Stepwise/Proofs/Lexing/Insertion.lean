import Stepwise.Proofs.Lexing.Steps

/-!
Blank lines and lines with only a comment.

What the scanner does up to the front of a line does not depend on what stands behind, a line without a
token leaves it as it was one line further down, and from there it reads the same tokens, each one line
further down.
-/

namespace Stepwise.Script

def WholeLines (text : List Char) : Prop := ∀ c ∈ text.getLast?, c = '\n'

theorem WholeLines.of_append {front text : List Char} (whole : WholeLines (front ++ text)) :
    WholeLines text := by
  intro c last
  refine whole c ?_
  rw [List.getLast?_append, last]
  rfl

theorem WholeLines.feed_mem {text : List Char} (whole : WholeLines text) (filled : text ≠ []) :
    '\n' ∈ text := by
  have last := List.getLast?_eq_some_getLast filled
  have feed := whole _ last
  exact feed ▸ List.getLast_mem filled

theorem WholeLines.past_column {text : List Char} (whole : WholeLines text) :
    (Position.start.past text).column = 0 := by
  rcases List.eq_nil_or_concat text with rfl | ⟨front, c, rfl⟩
  · rfl
  · obtain rfl : c = '\n' := whole c (by simp)
    rw [List.concat_eq_append, Position.past_feed]

theorem EndsLine.of_append {front rest : List Char} (filled : front ≠ [])
    (ends : EndsLine (front ++ rest)) (other : List Char) : EndsLine (front ++ other) := by
  cases front with
  | nil => exact absurd rfl filled
  | cons c front =>
      rcases ends with ended | ⟨rest, same⟩
      · cases ended
      · cases same
        exact .inr ⟨_, rfl⟩

theorem IsIndented.of_append {front rest : List Char} (filled : front ≠ [])
    (indented : IsIndented (front ++ rest)) (other : List Char) : IsIndented (front ++ other) := by
  cases front with
  | nil => exact absurd rfl filled
  | cons d front =>
      obtain ⟨c, rest, same, stands⟩ := indented
      cases same
      exact ⟨d, _, rfl, stands⟩

theorem Scans.feed_mem {mode finish : Mode} {position : Position} {text rest : List Char}
    {tokens : List Token} (scans : Scans mode position text rest tokens finish)
    (inside : mode.fresh = false) (fresh : finish.fresh = true) : '\n' ∈ text := by
  induction scans with
  | done =>
      rw [inside] at fresh
      cases fresh
  | next step _ inductionHypothesis =>
      cases step with
      | blankLine => cases inside
      | commentLine => cases inside
      | lastLine => cases inside
      | indent => cases inside
      | continuation => simp
      | lineEnd => simp
      | innerLineEnd => simp
      | _ => exact List.mem_append_right _ (inductionHypothesis rfl fresh)

/-- A step before the front of a line does not look at what stands behind it. -/
theorem Step.behind {position : Position} {passed text rest : List Char} {mode middle : Mode}
    {tokens : List Token} (step : Step position (text ++ rest) mode passed tokens middle)
    (whole : WholeLines (passed ++ text)) (feed : middle.fresh = false → '\n' ∈ text)
    (other : List Char) : Step position (text ++ other) mode passed tokens middle := by
  -- a comment does not end a line by itself
  have beyond : ∀ front comment : List Char, passed = front ++ '#' :: comment → '\n' ∉ comment →
      text ≠ [] := by
    rintro front comment rfl inside rfl
    rw [List.append_nil] at whole
    have last := (whole.of_append).feed_mem (List.cons_ne_nil '#' comment)
    rcases List.mem_cons.mp last with same | member
    · cases same
    · exact inside member
  have filled : middle.fresh = false → text ≠ [] := fun inside =>
    List.ne_nil_of_mem (feed inside)
  cases step with
  | blankLine blank => exact .blankLine blank
  | @commentLine _ blanks comment blank inside ends =>
      exact .commentLine blank inside (ends.of_append (beyond blanks comment rfl inside) other)
  | lastLine blank ended =>
      rw [List.append_eq_nil_iff] at ended
      exact absurd ended.1 (filled rfl)
  | indent blank indented measured =>
      exact .indent blank (indented.of_append (filled rfl) other) measured
  | blank isBlank => exact .blank isBlank
  | @comment _ comment inside ends =>
      exact .comment inside (ends.of_append (beyond [] comment rfl inside) other)
  | continuation carriage => exact .continuation carriage
  | lineEnd flat => exact .lineEnd flat
  | innerLineEnd nested => exact .innerLineEnd nested
  | lexeme fronts accepted => exact .lexeme (fronts.behind (feed rfl) other) accepted

/-- The way to the front of a line does not depend on what stands behind it. -/
theorem Scans.behind {mode finish : Mode} {position : Position} {text rest : List Char}
    {tokens : List Token} (scans : Scans mode position text rest tokens finish)
    (whole : WholeLines text) (fresh : finish.fresh = true) (other : List Char) :
    Scans mode position text other tokens finish := by
  induction scans with
  | done => exact .done
  | next step scans inductionHypothesis =>
      exact .next (step.behind whole (fun inside => scans.feed_mem inside fresh) other)
        (inductionHypothesis whole.of_append fresh)

def Position.lower (position : Position) : Position := ⟨position.line + 1, position.column⟩

def Token.lower (token : Token) : Token := ⟨token.kind, token.position.lower⟩

theorem Position.after_lower (position : Position) (c : Char) :
    position.lower.after c = (position.after c).lower := by
  unfold after
  split <;> rfl

theorem Position.past_lower (position : Position) (text : List Char) :
    position.lower.past text = (position.past text).lower := by
  induction text generalizing position with
  | nil => rfl
  | cons c text inductionHypothesis =>
      change (position.lower.after c).past text = _
      rw [after_lower, inductionHypothesis]
      rfl

namespace LineState

theorem lineEnd_lower (state : LineState) (position : Position) :
    state.lineEnd position.lower = (state.lineEnd position).map Token.lower := by
  unfold lineEnd
  split <;> rfl

theorem indentTo_lower {state after : LineState} {width line : Nat} {tokens : List Token}
    (measured : state.indentTo width line = .ok (tokens, after)) :
    state.indentTo width (line + 1) = .ok (tokens.map Token.lower, after) := by
  unfold indentTo at measured ⊢
  simp only at measured ⊢
  split at measured
  · rename_i deeper
    cases measured
    rw [if_pos deeper]
    rfl
  · rename_i deeper
    rw [if_neg deeper]
    split at measured
    · rename_i aligned
      cases measured
      rw [if_pos aligned, List.map_map]
      rfl
    · cases measured

theorem accept_lower {state after : LineState} {line : Nat} {kind : TokenKind}
    (accepted : state.accept line kind = .ok after) : state.accept (line + 1) kind = .ok after := by
  obtain ⟨depth, found, rfl⟩ := depthAfter?_of_accept accepted
  exact accept_of_depthAfter? _ found

theorem finish_lower {state : LineState} {position : Position} {tokens : List Token}
    (ended : state.finish position = .ok tokens) :
    state.finish position.lower = .ok (tokens.map Token.lower) := by
  unfold finish at ended ⊢
  split at ended
  · cases ended
  · rename_i flat
    cases ended
    rw [if_neg flat, lineEnd_lower]
    simp only [closeAll, List.map_append, List.map_map]
    rfl

end LineState

theorem Step.lower {position : Position} {rest passed : List Char} {mode next : Mode}
    {tokens : List Token} (step : Step position rest mode passed tokens next) :
    Step position.lower rest mode passed (tokens.map Token.lower) next := by
  cases step with
  | blankLine blank => exact .blankLine blank
  | commentLine blank inside ends => exact .commentLine blank inside ends
  | lastLine blank ended => exact .lastLine blank ended
  | indent blank indented measured =>
      exact .indent blank indented (LineState.indentTo_lower measured)
  | blank isBlank => exact .blank isBlank
  | comment inside ends => exact .comment inside ends
  | continuation carriage => exact .continuation carriage
  | @lineEnd state flat =>
      rw [← state.lineEnd_lower]
      exact .lineEnd flat
  | innerLineEnd nested => exact .innerLineEnd nested
  | lexeme fronts accepted => exact .lexeme fronts (LineState.accept_lower accepted)

theorem Scans.lower {mode finish : Mode} {position : Position} {text rest : List Char}
    {tokens : List Token} (scans : Scans mode position text rest tokens finish) :
    Scans mode position.lower text rest (tokens.map Token.lower) finish := by
  induction scans with
  | done => exact .done
  | @next _ _ _ position passed _ _ _ _ step _ inductionHypothesis =>
      rw [List.map_append]
      rw [← position.past_lower passed] at inductionHypothesis
      exact .next step.lower inductionHypothesis

/-- One line further down the scanner reads the same tokens, each one line further down. -/
theorem scan_lower {state : LineState} {fresh : Bool} {position : Position} {text : List Char}
    {tokens : List Token} (scanned : scan state fresh position text = .ok tokens) :
    scan state fresh position.lower text = .ok (tokens.map Token.lower) := by
  cases completes_of_scan scanned with
  | @intro front last finish scans ended =>
      have lowered := scans.lower.scan_eq
      have ended := LineState.finish_lower ended
      rw [List.append_nil, Position.past_lower] at lowered
      change scan state fresh position.lower text =
        (scan finish false (position.past text).lower []).map _ at lowered
      have last : scan finish false (position.past text).lower [] = .ok (last.map Token.lower) := by
        rw [scan]
        exact ended
      rw [lowered, last, List.map_append]
      rfl

/-- A full line of blanks, with or without a comment behind them. -/
inductive IsInsignificant : List Char → Prop where
  | blank {blanks : List Char} : IsBlank blanks → IsInsignificant (blanks ++ ['\n'])
  | comment {blanks comment : List Char} : IsBlank blanks → '\n' ∉ comment →
      IsInsignificant (blanks ++ '#' :: comment ++ ['\n'])

/-- A line without a token leaves the scanner at the front of the next line. -/
theorem IsInsignificant.scans {line : List Char} (insignificant : IsInsignificant line)
    (state : LineState) (position : Position) (rest : List Char) :
    Scans ⟨state, true⟩ position line rest [] ⟨state, true⟩ := by
  cases insignificant with
  | @blank blanks blank =>
      have step : Step position ([] ++ rest) ⟨state, true⟩ (blanks ++ ['\n']) [] ⟨state, true⟩ :=
        .blankLine blank
      simpa using Scans.next step .done
  | @comment blanks comment blank inside =>
      have ends : EndsLine (['\n'] ++ rest) := .inr ⟨rest, rfl⟩
      have feed : Step (position.past (blanks ++ '#' :: comment)) ([] ++ rest) ⟨state, true⟩
          ([] ++ ['\n']) [] ⟨state, true⟩ := .blankLine nofun
      exact .next (.commentLine blank inside ends) (.next feed .done)

theorem IsInsignificant.past {line : List Char} (insignificant : IsInsignificant line)
    (position : Position) : position.past line = ⟨position.line + 1, 0⟩ := by
  cases insignificant with
  | blank isBlank => rw [Position.past_feed, isBlank.past_line]
  | @comment blanks comment isBlank inside =>
      have visible : '\n' ∉ blanks ++ '#' :: comment := by
        simp [isBlank.feed_not_mem, inside]
      rw [Position.past_feed, Position.past_of_visible visible]

theorem Step.line {position : Position} {rest passed : List Char} {mode next : Mode}
    {tokens : List Token} (step : Step position rest mode passed tokens next) :
    ∀ token ∈ tokens, token.position.line = position.line := by
  cases step with
  | indent _ _ measured =>
      exact fun token member => (LineState.indentTo_unwritten measured token member).1
  | @lineEnd state _ => exact fun token member => (state.lineEnd_unwritten position token member).1
  | lexeme =>
      intro token member
      rw [List.mem_singleton.mp member]
  | _ => nofun

theorem Step.passed_ne_nil {position : Position} {rest passed : List Char} {mode next : Mode}
    {tokens : List Token} (step : Step position rest mode passed tokens next)
    (fresh : next.fresh = true) : passed ≠ [] := by
  cases step with
  | lastLine => cases fresh
  | indent => cases fresh
  | lexeme => cases fresh
  | _ => simp

/-- The tokens before the front of a line stand on lines above it. -/
theorem Scans.above {mode finish : Mode} {position : Position} {text rest : List Char}
    {tokens : List Token} (scans : Scans mode position text rest tokens finish)
    (whole : WholeLines text) (fresh : finish.fresh = true) :
    ∀ token ∈ tokens, token.position.line < (position.past text).line := by
  induction scans with
  | done => nofun
  | @next _ middle _ position passed text _ front tokens step scans inductionHypothesis =>
      intro token member
      rcases List.mem_append.mp member with member | member
      · have feed : '\n' ∈ passed ++ text := by
          cases inside : middle.fresh with
          | false => exact List.mem_append_right _ (scans.feed_mem inside fresh)
          | true => exact whole.feed_mem (by simp [step.passed_ne_nil inside])
        rw [step.line token member, Position.past_line]
        exact Nat.lt_add_of_pos_right (List.count_pos_iff.mpr feed)
      · rw [Position.past_append]
        exact inductionHypothesis whole.of_append fresh token member

/-- A point of a source that the scanner gets to at the front of a line, outside of brackets, strings
and continuations, and the tokens that it leaves up to there. -/
structure LineFront (before after : List Char) (tokens : List Token) : Prop where
  whole : WholeLines before
  reached : ∃ state, Scans .initial .start before after tokens ⟨state, true⟩

namespace LineFront

variable {before after : List Char} {front : List Token}

/-- The point does not depend on what stands behind it, and the scanner goes on from there. -/
theorem scan_eq (point : LineFront before after front) :
    ∃ state, ∀ other, tokenize (String.ofList (before ++ other)) =
      (scan state true (Position.start.past before) other).map (front ++ ·) := by
  obtain ⟨state, scans⟩ := point.reached
  refine ⟨state, fun other => ?_⟩
  rw [tokenize, String.toList_ofList]
  exact (scans.behind point.whole rfl other).scan_eq

theorem above (point : LineFront before after front) :
    ∀ token ∈ front, token.position.line < (Position.start.past before).line := by
  obtain ⟨state, scans⟩ := point.reached
  exact scans.above point.whole rfl

/-- The point is at the front of a line, so that what starts a line further down starts right below it. -/
theorem past_insignificant (point : LineFront before after front) {line : List Char}
    (insignificant : IsInsignificant line) :
    (Position.start.past before).past line = (Position.start.past before).lower := by
  rw [insignificant.past, Position.lower, point.whole.past_column]

end LineFront

/-- A line without a token that is inserted at the front of a line moves the tokens behind it down by a
line and changes nothing else. -/
theorem tokenize_insert {before after line : List Char} {front tokens : List Token}
    (point : LineFront before after front) (insignificant : IsInsignificant line)
    (accepted : tokenize (String.ofList (before ++ after)) = .ok tokens) :
    ∃ back, tokens = front ++ back ∧
      tokenize (String.ofList (before ++ line ++ after)) = .ok (front ++ back.map Token.lower) ∧
      (∀ token ∈ front, token.position.line < (Position.start.past before).line) ∧
      ∀ token ∈ back, (Position.start.past before).line ≤ token.position.line := by
  obtain ⟨state, goes⟩ := point.scan_eq
  rw [goes] at accepted
  obtain ⟨back, scanned, rfl⟩ := ok_of_map_ok accepted
  refine ⟨back, rfl, ?_, point.above, (scan_stands scanned).least⟩
  have passes : scan state true (Position.start.past before) (line ++ after) =
      .ok (back.map Token.lower) := by
    have passed := (insignificant.scans state (Position.start.past before) after).scan_eq
    rw [Except.map_nil_append, point.past_insignificant insignificant] at passed
    exact passed.trans (scan_lower scanned)
  rw [List.append_assoc, goes, passes]
  rfl

theorem tokenize_insert_behind_line :
    LineFront ['a', '\n'] ['b', '\n'] [⟨.name "a", ⟨1, 0⟩⟩, ⟨.newline, ⟨1, 1⟩⟩] ∧
      IsInsignificant [' ', '#', 'c', '\n'] ∧
      tokenize (String.ofList (['a', '\n'] ++ [' ', '#', 'c', '\n'] ++ ['b', '\n'])) =
        .ok [⟨.name "a", ⟨1, 0⟩⟩, ⟨.newline, ⟨1, 1⟩⟩, ⟨.name "b", ⟨3, 0⟩⟩, ⟨.newline, ⟨3, 1⟩⟩,
          ⟨.endOfInput, ⟨4, 0⟩⟩] := by
  have point : LineFront ['a', '\n'] ['b', '\n']
      [⟨.name "a", ⟨1, 0⟩⟩, ⟨.newline, ⟨1, 1⟩⟩] := by
    have indent : Step .start (['a', '\n'] ++ ['b', '\n']) .initial [] [] ⟨.initial, false⟩ :=
      .indent nofun ⟨'a', ['\n', 'b', '\n'], rfl, rfl, by decide, by decide⟩ rfl
    have word : Step .start (['\n'] ++ ['b', '\n']) ⟨.initial, false⟩ ['a'] [⟨.name "a", .start⟩]
        ⟨⟨[], 0, true⟩, false⟩ := .lexeme (.of_read rfl ⟨_, rfl, rfl, rfl⟩) rfl
    have ending : Step ⟨1, 1⟩ ([] ++ ['b', '\n']) ⟨⟨[], 0, true⟩, false⟩ ['\n']
        [⟨.newline, ⟨1, 1⟩⟩] ⟨.initial, true⟩ := .lineEnd rfl
    exact ⟨by simp [WholeLines], .initial, .next indent (.next word (.next ending .done))⟩
  have insignificant : IsInsignificant [' ', '#', 'c', '\n'] :=
    @IsInsignificant.comment [' '] ['c'] (isBlank_singleton rfl) (by decide)
  have accepted : tokenize (String.ofList (['a', '\n'] ++ ['b', '\n'])) =
      .ok [⟨.name "a", ⟨1, 0⟩⟩, ⟨.newline, ⟨1, 1⟩⟩, ⟨.name "b", ⟨2, 0⟩⟩, ⟨.newline, ⟨2, 1⟩⟩,
          ⟨.endOfInput, ⟨3, 0⟩⟩] := by cbv
  obtain ⟨back, split, inserted, -⟩ := tokenize_insert point insignificant accepted
  refine ⟨point, insignificant, ?_⟩
  cases split
  exact inserted

end Stepwise.Script
