import Mathlib
import Stepwise.Proofs.Lexing.Returns
import Stepwise.Proofs.Lexing.Steps

/-!
Sources whose lines end with a carriage return and a line feed.

The scanner reads such a source as it reads the one without carriage returns, up to the columns and to
what is written between the quotes of a string.
-/

namespace Stepwise.Script

def Spelled (position : Position) (text : List Char) (token : Token) (written : List Char) : Prop :=
  ∃ before rest, text = before ++ written ++ rest ∧ token.position = position.past before ∧
    Fronts written token.kind rest

/-- What a token of a text becomes with carriage returns: it stays on its line and is what it was,
except that a string has the carriage returns that it is written with. -/
structure Returned (position : Position) (text : List Char) (token returned : Token) : Prop where
  line : returned.position.line = token.position.line
  other : token.kind.isString = false → returned.kind = token.kind
  string : token.kind.isString = true → ∃ quote triple inner, (quote = '\'' ∨ quote = '"') ∧
    Spelled position text token (quotes quote triple ++ inner ++ quotes quote triple) ∧
    token.kind = .str (String.ofList (meaning inner)) ∧
    returned.kind = .str (String.ofList (meaning (withReturns inner)))

section

variable {position : Position} {passed text written : List Char} {token returned : Token}

theorem Spelled.behind (spelled : Spelled (position.past passed) text token written) :
    Spelled position (passed ++ text) token written := by
  obtain ⟨before, rest, rfl, place, fronts⟩ := spelled
  refine ⟨passed ++ before, rest, by simp only [List.append_assoc], ?_, fronts⟩
  rw [place, Position.past_append]

theorem Returned.behind (same : Returned (position.past passed) text token returned) :
    Returned position (passed ++ text) token returned where
  line := same.line
  other := same.other
  string isString := by
    obtain ⟨quote, triple, inner, isQuote, spelled, kinds⟩ := same.string isString
    exact ⟨quote, triple, inner, isQuote, spelled.behind, kinds⟩

theorem Returned.same {kind : TokenKind} (plain : kind.isString = false) {first second : Position}
    (line : second.line = first.line) : Returned position text ⟨kind, first⟩ ⟨kind, second⟩ where
  line := line
  other _ := rfl
  string isString := by
    rw [plain] at isString
    cases isString

end

/-- No literal among some tokens of a text escapes a line feed. -/
def Unescaped (position : Position) (text : List Char) (tokens : List Token) : Prop :=
  ∀ token ∈ tokens, ∀ written, Spelled position text token written → escapesFeed written = false

/-- What is read of a text with carriage returns, as against what is read of the text. -/
structure Follows (position : Position) (text : List Char)
    (result returned : Except SyntaxError (List Token)) : Prop where
  fails : ∀ error, result = .error error → ∃ other, returned = .error other
  succeeds : ∀ tokens, result = .ok tokens → Unescaped position text tokens →
    ∃ others, returned = .ok others ∧ List.Forall₂ (Returned position text) tokens others

namespace Follows

variable {position : Position} {passed text : List Char}
  {result returned : Except SyntaxError (List Token)}

theorem error {first second : SyntaxError} : Follows position text (.error first) (.error second) where
  fails _ _ := ⟨second, rfl⟩
  succeeds := nofun

theorem behind {front front' : List Token}
    (same : List.Forall₂ (Returned position (passed ++ text)) front front')
    (follows : Follows (position.past passed) text result returned) :
    Follows position (passed ++ text) (result.map (front ++ ·)) (returned.map (front' ++ ·)) where
  fails error failed := by
    cases result with
    | ok => cases failed
    | error =>
        obtain ⟨other, rfl⟩ := follows.fails _ rfl
        exact ⟨other, rfl⟩
  succeeds tokens read unescaped := by
    obtain ⟨behind, rfl, rfl⟩ := ok_of_map_ok read
    obtain ⟨others, rfl, returns⟩ := follows.succeeds behind rfl fun token member written spelled =>
      unescaped token (List.mem_append_right front member) written spelled.behind
    exact ⟨front' ++ others, rfl, List.rel_append same (returns.imp fun _ _ => Returned.behind)⟩

theorem pass (follows : Follows (position.past passed) text result returned) :
    Follows position (passed ++ text) result returned := by
  have front := follows.behind .nil
  rwa [Except.map_nil_append, Except.map_nil_append] at front

theorem passChar {c : Char} (follows : Follows (position.after c) text result returned) :
    Follows position (c :: text) result returned := by
  have moved : position.after c = position.past [c] := rfl
  rw [moved] at follows
  exact follows.pass

end Follows

theorem LineState.lineEnd_returned (state : LineState) {first second : Position}
    (line : second.line = first.line) (position : Position) (text : List Char) :
    List.Forall₂ (Returned position text) (state.lineEnd first) (state.lineEnd second) := by
  unfold lineEnd
  split
  · exact .cons (.same rfl line) .nil
  · exact .nil

theorem LineState.finish_follows (state : LineState) {first second : Position}
    (line : second.line = first.line) (position : Position) (text : List Char) :
    Follows position text (state.finish first) (state.finish second) := by
  have lineEnds := state.lineEnd_returned line position text
  have closes : List.Forall₂ (Returned position text) (state.closeAll first.line)
      (state.closeAll second.line) := by
    rw [line, closeAll]
    exact List.forall₂_map_left_iff.mpr (List.forall₂_map_right_iff.mpr
      (List.forall₂_same.mpr fun _ _ => .same rfl rfl))
  unfold finish
  split
  · exact .error
  · refine ⟨nofun, fun tokens read _ => ?_⟩
    cases read
    exact ⟨_, rfl, List.rel_append (List.rel_append lineEnds closes) (.cons (.same rfl line) .nil)⟩

theorem TokenKind.isString_of_unwritten {kind : TokenKind} (unwritten : kind.isWritten = false) :
    kind.isString = false := by
  cases kind <;> first | rfl | cases unwritten

/-- A carriage return before a line feed does not matter, wherever the line has got to. -/
theorem scan_return (state : LineState) (fresh : Bool) (position : Position) (rest : List Char) :
    scan state fresh position ('\r' :: '\n' :: rest) =
      scan state fresh (position.after '\r') ('\n' :: rest) := by
  cases fresh with
  | false => exact scan_blank rfl
  | true =>
      have blank : IsBlank ['\r'] := isBlank_singleton rfl
      have first : scan state true position (['\r'] ++ '\n' :: rest) =
          scan state true ((position.after '\r').after '\n') rest := scan_fresh_cons blank rfl
      have second : scan state true (position.after '\r') ([] ++ '\n' :: rest) =
          scan state true ((position.after '\r').after '\n') rest := scan_fresh_cons nofun rfl
      exact first.trans second.symm

/-- A comment takes the carriage return before the end of its line, which does not matter. -/
theorem scan_comment_withReturns {state : LineState} {fresh : Bool} {position : Position}
    {front comment rest : List Char}
    (step : ∀ comment rest, '\n' ∉ comment → EndsLine rest →
      Step position rest ⟨state, fresh⟩ (front ++ '#' :: comment) [] ⟨state, fresh⟩)
    (inside : '\n' ∉ comment) (ends : EndsLine rest) :
    scan state fresh position (front ++ '#' :: comment ++ withReturns rest) =
      scan state fresh (position.past (front ++ '#' :: comment)) (withReturns rest) := by
  rcases ends with rfl | ⟨rest, rfl⟩
  · have passes := (step comment [] inside (.inl rfl)).scan_eq
    rwa [Except.map_nil_append] at passes
  · have returned : '\n' ∉ comment ++ ['\r'] := by simp [inside]
    have passes := (step (comment ++ ['\r']) ('\n' :: withReturns rest) returned
      (.inr ⟨_, rfl⟩)).scan_eq
    have moved : position.past (front ++ '#' :: (comment ++ ['\r'])) =
        (position.past (front ++ '#' :: comment)).after '\r' := by
      rw [← List.cons_append, ← List.append_assoc, Position.past_append]
      rfl
    rw [Except.map_nil_append, moved] at passes
    rw [withReturns_feed]
    refine Eq.trans ?_ (passes.trans (scan_return state fresh _ _).symm)
    simp [Mode.scan]

theorem count_withReturns (text : List Char) :
    (withReturns text).count '\n' = text.count '\n' := by
  induction text with
  | nil => rfl
  | cons c text inductionHypothesis =>
      by_cases feed : c = '\n'
      · subst feed
        rw [withReturns_feed, List.count_cons_of_ne (by decide), List.count_cons_self,
          List.count_cons_self, inductionHypothesis]
      · rw [withReturns_cons feed, List.count_cons_of_ne feed, List.count_cons_of_ne feed,
          inductionHypothesis]

theorem Position.past_line_congr {first second : Position} (line : second.line = first.line)
    {passed passed' : List Char} (feeds : passed'.count '\n' = passed.count '\n') :
    (second.past passed').line = (first.past passed).line := by
  rw [past_line, past_line, line, feeds]

theorem Position.after_line_congr {first second : Position} (line : second.line = first.line)
    (c : Char) : (second.after c).line = (first.after c).line := by
  rw [after_line, after_line, line]

theorem scan_blankLine_withReturns {state : LineState} {position : Position} {blanks : List Char}
    (blank : IsBlank blanks) (rest : List Char) :
    scan state true position (withReturns (blanks ++ ['\n'] ++ rest)) =
      scan state true (position.past (withReturns (blanks ++ ['\n']))) (withReturns rest) := by
  have returned : IsBlank (blanks ++ ['\r']) := by
    intro c member
    rcases List.mem_append.mp member with member | member
    · exact blank c member
    · rw [List.mem_singleton.mp member]
      rfl
  have step : Step position (withReturns rest) ⟨state, true⟩ (blanks ++ ['\r'] ++ ['\n']) []
      ⟨state, true⟩ := .blankLine returned
  have same : withReturns (blanks ++ ['\n']) = blanks ++ ['\r'] ++ ['\n'] := by
    simp [withReturns_of_visible blank.feed_not_mem]
  rw [withReturns_append, same, ← Except.map_nil_append (scan _ _ (position.past _) _)]
  exact step.scan_eq

theorem scan_continuation_withReturns {state : LineState} {position : Position} {returns : List Char}
    (carriage : ∀ c ∈ returns, c = '\r') (rest : List Char) :
    scan state false position (withReturns ('\\' :: returns ++ ['\n'] ++ rest)) =
      scan state false ⟨position.line + 1, 0⟩ (withReturns rest) := by
  have carriages : ∀ c ∈ returns ++ ['\r'], c = '\r' := by
    intro c member
    rcases List.mem_append.mp member with member | member
    · exact carriage c member
    · exact List.mem_singleton.mp member
  have step : Step position (withReturns rest) ⟨state, false⟩
      ('\\' :: (returns ++ ['\r']) ++ ['\n']) [] ⟨state, false⟩ := .continuation carriages
  have same : withReturns ('\\' :: returns ++ ['\n']) = '\\' :: (returns ++ ['\r']) ++ ['\n'] := by
    rw [withReturns_append, withReturns_of_visible (feed_not_mem_continuation carriage)]
    simp
  rw [withReturns_append, same, ← Position.past_continuation carriages position,
    ← Except.map_nil_append (scan _ _ (position.past _) _)]
  exact step.scan_eq

theorem scan_lineEnd_withReturns {state : LineState} (flat : state.depth = 0) (position : Position)
    (rest : List Char) :
    scan state false position (withReturns ('\n' :: rest)) =
      (scan { state with started := false } true ⟨position.line + 1, 0⟩ (withReturns rest)).map
        (state.lineEnd (position.after '\r') ++ ·) := by
  rw [withReturns_feed, scan_return]
  exact (Step.lineEnd flat).scan_eq

theorem scan_innerLineEnd_withReturns {state : LineState} (nested : state.depth ≠ 0)
    (position : Position) (rest : List Char) :
    scan state false position (withReturns ('\n' :: rest)) =
      scan state false ⟨position.line + 1, 0⟩ (withReturns rest) := by
  have step : Step (position.after '\r') (withReturns rest) ⟨state, false⟩ ['\n'] []
      ⟨state, false⟩ := .innerLineEnd nested
  have passes := step.scan_eq
  rw [Except.map_nil_append] at passes
  rw [withReturns_feed, scan_return]
  exact passes

theorem scan_of_read_error {state : LineState} {position : Position} {c : Char} {rest : List Char}
    {problem : SyntaxProblem} (opens : opensLexeme c = true)
    (failed : Lexeme.read c rest = .error problem) :
    scan state false position (c :: rest) = .error ⟨position.line, problem⟩ := by
  simp only [opensLexeme, Bool.and_eq_true, Bool.not_eq_true', bne_iff_ne] at opens
  obtain ⟨⟨⟨blank, comment⟩, continued⟩, ended⟩ := opens
  rw [scan]
  simp [blank, comment, continued, ended, failed]

theorem scan_of_broken {state : LineState} {position : Position} {rest : List Char}
    (broken : ∀ more, rest.dropWhile (· == '\r') ≠ '\n' :: more) :
    scan state false position ('\\' :: rest) = .error ⟨position.line, .brokenContinuation⟩ := by
  rw [scan]
  simp only [show isLineBlank '\\' = false from rfl, Bool.false_eq_true, if_false,
    show ('\\' == '#') = false from rfl, beq_self_eq_true, if_true]

theorem broken_withReturns {rest : List Char}
    (broken : ∀ more, rest.dropWhile (· == '\r') ≠ '\n' :: more) :
    ∀ more, (withReturns rest).dropWhile (· == '\r') ≠ '\n' :: more := by
  induction rest with
  | nil => nofun
  | cons c rest inductionHypothesis =>
      by_cases carriage : c = '\r'
      · subst carriage
        rw [withReturns_cons (by decide)]
        exact inductionHypothesis broken
      · have stops : (c == '\r') = false := by simpa using carriage
        have visible : c ≠ '\n' := by
          rintro rfl
          exact broken rest rfl
        rw [withReturns_cons visible, List.dropWhile_cons_of_neg (by simp [stops])]
        intro more same
        exact visible (List.head_eq_of_cons_eq same)

/-- A lexeme and what it becomes, before what is read behind them. -/
theorem Follows.lexeme {position other : Position} {written rest : List Char} {kind kind' : TokenKind}
    {result returned : Except SyntaxError (List Token)} (fronts : Fronts written kind rest)
    (twin : KindTwin written kind kind') (line : other.line = position.line)
    (follows : Follows (position.past written) rest result returned) :
    Follows position (written ++ rest) (result.map (⟨kind, position⟩ :: ·))
      (returned.map (⟨kind', other⟩ :: ·)) where
  fails error failed := by
    cases result with
    | ok => cases failed
    | error =>
        obtain ⟨other, rfl⟩ := follows.fails _ rfl
        exact ⟨other, rfl⟩
  succeeds tokens read unescaped := by
    obtain ⟨behind, rfl, rfl⟩ := ok_of_map_ok read
    have spelled : Spelled position (written ++ rest) ⟨kind, position⟩ written :=
      ⟨[], rest, rfl, rfl, fronts⟩
    have safe := unescaped _ List.mem_cons_self written spelled
    obtain ⟨others, rfl, returns⟩ := follows.succeeds behind rfl fun token member written spelled =>
      unescaped token (List.mem_cons_of_mem _ member) written spelled.behind
    refine ⟨⟨kind', other⟩ :: others, rfl, .cons ?_ (returns.imp fun _ _ => Returned.behind)⟩
    cases twin with
    | same plain => exact .same plain line
    | @string quote triple inner content isQuote whole means =>
        have apart : quote ≠ '\\' := by rcases isQuote with rfl | rfl <;> decide
        refine ⟨line, nofun, fun _ => ⟨quote, triple, inner, isQuote, whole ▸ spelled, rfl, ?_⟩⟩
        rw [means (eq_false_of_ne_true fun escapes => ?_)]
        rw [whole, escapesFeed_quotes apart triple escapes] at safe
        cases safe

theorem Follows.lost {position : Position} {written rest : List Char} {kind : TokenKind}
    {result : Except SyntaxError (List Token)} (fronts : Fronts written kind rest)
    (escapes : escapesFeed written = true) (error : SyntaxError) :
    Follows position (written ++ rest) (result.map (⟨kind, position⟩ :: ·)) (.error error) where
  fails _ _ := ⟨error, rfl⟩
  succeeds tokens read unescaped := by
    obtain ⟨behind, rfl, rfl⟩ := ok_of_map_ok read
    have safe := unescaped _ List.mem_cons_self written ⟨[], rest, rfl, rfl, fronts⟩
    rw [escapes] at safe
    cases safe

theorem KindTwin.accept_eq {written : List Char} {kind kind' : TokenKind}
    (twin : KindTwin written kind kind') (state : LineState) (line : Nat) :
    state.accept line kind' = state.accept line kind := by
  cases twin <;> rfl

theorem Fronts.follows {position other : Position} {written rest : List Char} {kind : TokenKind}
    {state : LineState} (fronts : Fronts written kind rest) (line : other.line = position.line)
    (behind : ∀ after, Follows (position.past written) rest
      (scan after false (position.past written) rest)
      (scan after false (other.past (withReturns written)) (withReturns rest))) :
    Follows position (written ++ rest) (scan state false position (written ++ rest))
      (scan state false other (withReturns (written ++ rest))) := by
  rw [scan_fronts_eq fronts]
  rcases fronts.twin with ⟨kind', returns, twin⟩ | ⟨escapes, c, more, rfl, opens, failed⟩
  · rw [withReturns_append, scan_fronts_eq returns, twin.accept_eq, line]
    cases state.accept position.line kind with
    | error => exact .error
    | ok after => exact .lexeme fronts twin line (behind after)
  · rw [List.cons_append, withReturns_cons (ne_feed_of_inWord (inWord_of_opensLexeme opens)),
      scan_of_read_error opens failed, ← List.cons_append]
    cases state.accept position.line kind with
    | error => exact .error
    | ok after => exact .lost fronts escapes _

section

variable {state : LineState} {fresh : Bool} {position other : Position} {blanks rest : List Char}

theorem Follows.blankEnd {text : List Char} (blank : IsBlank text) (line : other.line = position.line) :
    Follows position text (state.finish (position.past text))
      (scan state true other (withReturns text)) := by
  rw [withReturns_of_visible blank.feed_not_mem, scan_fresh_nil blank]
  refine state.finish_follows ?_ position text
  rw [blank.past_line, line, blank.past_line]

theorem Follows.blankLine (blank : IsBlank blanks)
    (behind : Follows (position.past (blanks ++ ['\n'])) rest
      (scan state true (position.past (blanks ++ ['\n'])) rest)
      (scan state true (other.past (withReturns (blanks ++ ['\n']))) (withReturns rest))) :
    Follows position (blanks ++ '\n' :: rest)
      (scan state true (position.past (blanks ++ ['\n'])) rest)
      (scan state true other (withReturns (blanks ++ '\n' :: rest))) := by
  rw [List.append_cons, scan_blankLine_withReturns blank]
  exact behind.pass

theorem Follows.comment (blank : IsBlank blanks)
    (step : ∀ comment rest, '\n' ∉ comment → EndsLine rest →
      Step other rest ⟨state, fresh⟩ (blanks ++ '#' :: comment) [] ⟨state, fresh⟩)
    (behind : Follows (position.past (blanks ++ '#' :: rest.takeWhile isInLine))
      (rest.dropWhile isInLine)
      (scan state fresh (position.past (blanks ++ '#' :: rest.takeWhile isInLine))
        (rest.dropWhile isInLine))
      (scan state fresh (other.past (blanks ++ '#' :: rest.takeWhile isInLine))
        (withReturns (rest.dropWhile isInLine)))) :
    Follows position (blanks ++ '#' :: rest)
      (scan state fresh (position.past (blanks ++ '#' :: rest.takeWhile isInLine))
        (rest.dropWhile isInLine))
      (scan state fresh other (withReturns (blanks ++ '#' :: rest))) := by
  have inside := feed_not_mem_takeWhile rest
  have split : blanks ++ '#' :: rest =
      blanks ++ '#' :: rest.takeWhile isInLine ++ rest.dropWhile isInLine := by
    rw [List.append_assoc, List.cons_append, List.takeWhile_append_dropWhile]
  have visible : '\n' ∉ blanks ++ '#' :: rest.takeWhile isInLine := by
    simp [blank.feed_not_mem, inside]
  rw [split, withReturns_append, withReturns_of_visible visible,
    scan_comment_withReturns step inside (endsLine_dropWhile rest)]
  exact behind.pass

theorem Follows.indent {c : Char} (blank : IsBlank blanks) (visible : isLineBlank c = false)
    (feed : ¬ (c == '\n') = true) (comment : ¬ (c == '#') = true) (line : other.line = position.line)
    (behind : ∀ after, Follows (position.past blanks) (c :: rest)
      (scan after false (position.past blanks) (c :: rest))
      (scan after false (other.past blanks) (withReturns (c :: rest)))) :
    Follows position (blanks ++ c :: rest) (scan state true position (blanks ++ c :: rest))
      (scan state true other (withReturns (blanks ++ c :: rest))) := by
  have returned : withReturns (c :: rest) = c :: withReturns rest :=
    withReturns_cons (by simpa using feed) rest
  have lines : (other.past blanks).line = (position.past blanks).line :=
    Position.past_line_congr line rfl
  rw [returned] at behind
  rw [withReturns_append, withReturns_of_visible blank.feed_not_mem, returned,
    scan_fresh_cons blank visible, scan_fresh_cons blank visible, if_neg feed, if_neg feed,
    if_neg comment, if_neg comment, lines]
  cases measured : state.indentTo (indentWidth 0 blanks) (position.past blanks).line with
  | error => exact .error
  | ok moved =>
      obtain ⟨tokens, after⟩ := moved
      have layout : ∀ token ∈ tokens, token.kind.isString = false := fun token member =>
        TokenKind.isString_of_unwritten (LineState.indentTo_unwritten measured token member).2
      have same : List.Forall₂ (Returned position (blanks ++ c :: rest)) tokens tokens :=
        List.forall₂_same.mpr fun token member => .same (layout token member) rfl
      exact (behind after).behind same

theorem Follows.continuation {returns : List Char} (carriage : ∀ c ∈ returns, c = '\r')
    (line : other.line = position.line)
    (behind : Follows ⟨position.line + 1, 0⟩ rest (scan state false ⟨position.line + 1, 0⟩ rest)
      (scan state false ⟨position.line + 1, 0⟩ (withReturns rest))) :
    Follows position ('\\' :: returns ++ ['\n'] ++ rest)
      (scan state false ⟨position.line + 1, 0⟩ rest)
      (scan state false other (withReturns ('\\' :: returns ++ ['\n'] ++ rest))) := by
  rw [scan_continuation_withReturns carriage, line]
  rw [← Position.past_continuation carriage position] at behind ⊢
  exact behind.pass

theorem Follows.lineEnd (flat : state.depth = 0) (line : other.line = position.line)
    (behind : Follows (position.past ['\n']) rest
      (scan { state with started := false } true ⟨position.line + 1, 0⟩ rest)
      (scan { state with started := false } true ⟨position.line + 1, 0⟩ (withReturns rest))) :
    Follows position ('\n' :: rest)
      ((scan { state with started := false } true ⟨position.line + 1, 0⟩ rest).map
        (state.lineEnd position ++ ·))
      (scan state false other (withReturns ('\n' :: rest))) := by
  have here : (other.after '\r').line = position.line := line
  rw [scan_lineEnd_withReturns flat, line]
  exact behind.behind (state.lineEnd_returned here _ _)

theorem scan_follows {text : List Char} (line : other.line = position.line) :
    Follows position text (scan state fresh position text)
      (scan state fresh other (withReturns text)) := by
  fun_induction scan state fresh position text generalizing other
  -- at the front of a line
  case case1 state position text blanks here found =>
      have blank : IsBlank text := List.dropWhile_eq_nil_iff.mp found
      have taken : blanks = text := List.takeWhile_eq_self_iff.mpr blank
      rw [show here = position.past text from congrArg _ taken]
      exact .blankEnd blank line
  case case2 state position text blanks here c rest found feed inductionHypothesis =>
      obtain rfl := beq_iff_eq.mp feed
      have next : here.after '\n' = position.past (blanks ++ ['\n']) :=
        (position.past_append blanks ['\n']).symm
      rw [dropWhile_eq_cons found]
      rw [next] at inductionHypothesis ⊢
      exact .blankLine (isBlank_takeWhile text)
        (inductionHypothesis (Position.past_line_congr line (count_withReturns _)))
  case case3 state position text blanks here c rest found feed comment inductionHypothesis =>
      obtain rfl := beq_iff_eq.mp comment
      have blank : IsBlank blanks := isBlank_takeWhile text
      have next : here.past ('#' :: rest.takeWhile isInLine) =
          position.past (blanks ++ '#' :: rest.takeWhile isInLine) :=
        (position.past_append blanks ('#' :: rest.takeWhile isInLine)).symm
      rw [dropWhile_eq_cons found]
      rw [next] at inductionHypothesis ⊢
      exact .comment blank (fun _ _ inside ends => .commentLine blank inside ends)
        (inductionHypothesis (Position.past_line_congr line rfl))
  case case4 state position text blanks here c rest found feed comment inductionHypothesis =>
      have blank : IsBlank blanks := isBlank_takeWhile text
      have visible := visible_of_dropWhile found
      have follows : Follows position _ (scan state true position (blanks ++ c :: rest)) _ :=
        .indent blank visible feed comment line fun after =>
          inductionHypothesis after (Position.past_line_congr line rfl)
      rw [scan_fresh_cons blank visible, if_neg feed, if_neg comment] at follows
      rw [dropWhile_eq_cons found]
      exact follows
  -- inside a line
  case case5 state fresh position inside =>
      obtain rfl := eq_false_of_ne_true inside
      rw [withReturns_nil, scan.eq_def]
      exact state.finish_follows line position []
  case case6 state fresh position inside c rest isBlank inductionHypothesis =>
      obtain rfl := eq_false_of_ne_true inside
      have visible : c ≠ '\n' := by
        rintro rfl
        cases isBlank
      rw [withReturns_cons visible, scan_blank isBlank]
      exact .passChar (inductionHypothesis (Position.after_line_congr line c))
  case case7 state fresh position inside c rest blank comment inductionHypothesis =>
      obtain rfl := eq_false_of_ne_true inside
      obtain rfl := beq_iff_eq.mp comment
      have blank : IsBlank [] := List.forall_mem_nil _
      exact .comment blank (fun _ _ inside ends => .comment inside ends)
        (inductionHypothesis (Position.past_line_congr line rfl))
  case case8 state fresh position inside c rest blank comment continued more found
      inductionHypothesis =>
      obtain rfl := eq_false_of_ne_true inside
      obtain rfl := beq_iff_eq.mp continued
      obtain ⟨carriage, split⟩ := split_continuation found
      rw [split]
      exact .continuation carriage line (inductionHypothesis rfl)
  case case9 state fresh position inside c rest blank comment continued broken =>
      obtain rfl := eq_false_of_ne_true inside
      obtain rfl := beq_iff_eq.mp continued
      rw [withReturns_cons (by decide), scan_of_broken (broken_withReturns broken)]
      exact .error
  case case10 state fresh position inside c rest blank comment continued feed flat
      inductionHypothesis =>
      obtain rfl := eq_false_of_ne_true inside
      obtain rfl := beq_iff_eq.mp feed
      exact .lineEnd flat line (inductionHypothesis rfl)
  case case11 state fresh position inside c rest blank comment continued feed nested
      inductionHypothesis =>
      obtain rfl := eq_false_of_ne_true inside
      obtain rfl := beq_iff_eq.mp feed
      rw [scan_innerLineEnd_withReturns nested, line]
      exact .passChar (inductionHypothesis rfl)
  case case12 state fresh position inside c rest blank comment continued feed problem failed =>
      obtain rfl := eq_false_of_ne_true inside
      have opens : opensLexeme c = true := by simp_all [opensLexeme]
      obtain ⟨problem, failed⟩ :=
        Lexeme.read_withReturns_error (inWord_of_opensLexeme opens) failed
      rw [withReturns_cons (by simpa using feed), scan_of_read_error opens failed]
      exact .error
  case case13 state fresh position inside c rest blank comment continued feed lexeme read
      inductionHypothesis =>
      obtain rfl := eq_false_of_ne_true inside
      have opens : opensLexeme c = true := by simp_all [opensLexeme]
      have fronts := fronts_of_read opens read
      have follows : Follows position _ (scan state false position _) _ :=
        fronts.follows line fun after =>
          inductionHypothesis after (Position.past_line_congr line (count_withReturns _))
      rw [scan_fronts_eq fronts, List.take_append_drop] at follows
      exact follows

end

/-- What is read of a source without and with carriage returns: both are accepted, with tokens that
differ at most in what strings are written with, or none is. -/
def Agree (source : List Char) : Except SyntaxError (List Token) → Except SyntaxError (List Token) → Prop
  | .ok tokens, .ok returned => List.Forall₂ (Returned .start source) tokens returned
  | .error _, .error _ => True
  | _, _ => False

/-- A source is accepted with carriage returns if and only if it is accepted, and its tokens are the same
up to their columns and to the carriage returns in strings, unless a string escapes a line feed. -/
theorem tokenize_withReturns {source : List Char}
    (unescaped : ∀ tokens, tokenize (String.ofList source) = .ok tokens →
      Unescaped .start source tokens) :
    Agree source (tokenize (String.ofList source)) (tokenize (String.ofList (withReturns source))) := by
  have follows : Follows .start source (tokenize (String.ofList source))
      (tokenize (String.ofList (withReturns source))) := by
    rw [tokenize, tokenize, String.toList_ofList, String.toList_ofList]
    exact scan_follows rfl
  cases read : tokenize (String.ofList source) with
  | error =>
      obtain ⟨other, failed⟩ := follows.fails _ read
      rw [failed]
      trivial
  | ok tokens =>
      obtain ⟨others, accepted, returns⟩ := follows.succeeds tokens read (unescaped tokens read)
      rw [accepted]
      exact returns

theorem infix_of_escapesFeed {written : List Char} (escapes : escapesFeed written = true) :
    ['\\', '\n'] <:+: written := by
  fun_induction escapesFeed written with
  | case1 c rest inductionHypothesis =>
      rcases Bool.or_eq_true_iff.mp escapes with feed | later
      · rw [beq_iff_eq.mp feed]
        exact ⟨[], rest, rfl⟩
      · exact (inductionHypothesis later).trans ⟨['\\', c], [], by simp⟩
  | case2 c rest other inductionHypothesis =>
      exact (inductionHypothesis escapes).trans ⟨[c], [], by simp⟩
  | case3 => cases escapes

theorem unescaped_of_not_infix {text : List Char} (apart : ¬ ['\\', '\n'] <:+: text)
    (position : Position) (tokens : List Token) : Unescaped position text tokens := by
  rintro token - written ⟨before, rest, rfl, -, -⟩
  refine eq_false_of_ne_true fun escapes => apart ?_
  exact (infix_of_escapesFeed escapes).trans ⟨before, rest, rfl⟩

theorem tokenize_withReturns_long_string :
    ¬ ['\\', '\n'] <:+: quotes '\'' true ++ ['b', '\n', '\\', 't'] ++ quotes '\'' true ∧
      Agree (quotes '\'' true ++ ['b', '\n', '\\', 't'] ++ quotes '\'' true)
        (.ok [⟨.str "b\n\t", ⟨1, 0⟩⟩, ⟨.newline, ⟨2, 5⟩⟩, ⟨.endOfInput, ⟨2, 5⟩⟩])
        (.ok [⟨.str "b\r\n\t", ⟨1, 0⟩⟩, ⟨.newline, ⟨2, 5⟩⟩, ⟨.endOfInput, ⟨2, 5⟩⟩]) := by
  have apart : ¬ ['\\', '\n'] <:+: quotes '\'' true ++ ['b', '\n', '\\', 't'] ++ quotes '\'' true := by
    decide
  have read : tokenize (String.ofList
      (quotes '\'' true ++ ['b', '\n', '\\', 't'] ++ quotes '\'' true)) =
      .ok [⟨.str "b\n\t", ⟨1, 0⟩⟩, ⟨.newline, ⟨2, 5⟩⟩, ⟨.endOfInput, ⟨2, 5⟩⟩] := by cbv
  have returned : tokenize (String.ofList (withReturns
      (quotes '\'' true ++ ['b', '\n', '\\', 't'] ++ quotes '\'' true))) =
      .ok [⟨.str "b\r\n\t", ⟨1, 0⟩⟩, ⟨.newline, ⟨2, 5⟩⟩, ⟨.endOfInput, ⟨2, 5⟩⟩] := by cbv
  have agree := tokenize_withReturns fun tokens _ => unescaped_of_not_infix apart .start tokens
  rw [read, returned] at agree
  exact ⟨apart, agree⟩

/-- The kinds of the tokens of a source, with their values and lines, if the source is accepted. -/
def reading (source : List Char) : Option (List (TokenKind × Nat)) :=
  (tokenize (String.ofList source)).toOption.map fun tokens =>
    tokens.map fun token => (token.kind, token.position.line)

/-- A string keeps the carriage returns that it is written with, and a line feed is not escaped behind
one. -/
theorem reading_withReturns_ne :
    ('\r' ∉ quotes '\'' true ++ ['a', '\n', 'b'] ++ quotes '\'' true ∧
      reading (withReturns (quotes '\'' true ++ ['a', '\n', 'b'] ++ quotes '\'' true)) ≠
        reading (quotes '\'' true ++ ['a', '\n', 'b'] ++ quotes '\'' true)) ∧
    '\r' ∉ ['\'', 'a', '\\', '\n', 'b', '\''] ∧
      reading (withReturns ['\'', 'a', '\\', '\n', 'b', '\'']) ≠
        reading ['\'', 'a', '\\', '\n', 'b', '\''] := by
  have long : reading (quotes '\'' true ++ ['a', '\n', 'b'] ++ quotes '\'' true) =
      some [(.str "a\nb", 1), (.newline, 2), (.endOfInput, 2)] := by cbv
  have longReturned :
      reading (withReturns (quotes '\'' true ++ ['a', '\n', 'b'] ++ quotes '\'' true)) =
        some [(.str "a\r\nb", 1), (.newline, 2), (.endOfInput, 2)] := by cbv
  have escaped : reading ['\'', 'a', '\\', '\n', 'b', '\''] =
      some [(.str "ab", 1), (.newline, 2), (.endOfInput, 2)] := by cbv
  have escapedReturned : reading (withReturns ['\'', 'a', '\\', '\n', 'b', '\'']) = none := by cbv
  refine ⟨⟨by decide, ?_⟩, by decide, ?_⟩
  · rw [long, longReturned]
    simp
  · rw [escaped, escapedReturned]
    exact (Option.some_ne_none _).symm

end Stepwise.Script
