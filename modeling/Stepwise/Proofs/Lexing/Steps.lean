import Stepwise.Proofs.Lexing.Lookahead
import Stepwise.Proofs.Lexing.Streams

/-!
The steps of the scanner.

`Step` says everything that the scanner can do next: pass over some characters, leave tokens, and
remember something else.  A successful scan is a row of such steps up to the end of the text, and each
row of steps is what the scanner does.
-/

namespace Stepwise.Script

/-- What is remembered between lexemes, and whether the indent of a line is to be measured. -/
structure Mode where
  state : LineState
  fresh : Bool

def Mode.initial : Mode := ⟨.initial, true⟩

def Mode.scan (mode : Mode) (position : Position) (text : List Char) :
    Except SyntaxError (List Token) :=
  Script.scan mode.state mode.fresh position text

abbrev IsBlank (text : List Char) : Prop := ∀ c ∈ text, isLineBlank c = true

def EndsLine (text : List Char) : Prop := text = [] ∨ ∃ rest, text = '\n' :: rest

def IsIndented (text : List Char) : Prop :=
  ∃ c rest, text = c :: rest ∧ isLineBlank c = false ∧ c ≠ '\n' ∧ c ≠ '#'

/-- One step of the scanner at a position: it passes over some characters, which come before the rest,
and leaves some tokens. -/
inductive Step (position : Position) (rest : List Char) :
    Mode → List Char → List Token → Mode → Prop where
  | blankLine {state : LineState} {blanks : List Char} : IsBlank blanks →
      Step position rest ⟨state, true⟩ (blanks ++ ['\n']) [] ⟨state, true⟩
  | commentLine {state : LineState} {blanks comment : List Char} : IsBlank blanks →
      '\n' ∉ comment → EndsLine rest →
      Step position rest ⟨state, true⟩ (blanks ++ '#' :: comment) [] ⟨state, true⟩
  | lastLine {state : LineState} {blanks : List Char} : IsBlank blanks → rest = [] →
      Step position rest ⟨state, true⟩ blanks [] ⟨state, false⟩
  | indent {state after : LineState} {blanks : List Char} {tokens : List Token} : IsBlank blanks →
      IsIndented rest → state.indentTo (indentWidth 0 blanks) position.line = .ok (tokens, after) →
      Step position rest ⟨state, true⟩ blanks tokens ⟨after, false⟩
  | blank {state : LineState} {c : Char} : isLineBlank c = true →
      Step position rest ⟨state, false⟩ [c] [] ⟨state, false⟩
  | comment {state : LineState} {comment : List Char} : '\n' ∉ comment → EndsLine rest →
      Step position rest ⟨state, false⟩ ('#' :: comment) [] ⟨state, false⟩
  | continuation {state : LineState} {returns : List Char} : (∀ c ∈ returns, c = '\r') →
      Step position rest ⟨state, false⟩ ('\\' :: returns ++ ['\n']) [] ⟨state, false⟩
  | lineEnd {state : LineState} : state.depth = 0 →
      Step position rest ⟨state, false⟩ ['\n'] (state.lineEnd position)
        ⟨{ state with started := false }, true⟩
  | innerLineEnd {state : LineState} : state.depth ≠ 0 →
      Step position rest ⟨state, false⟩ ['\n'] [] ⟨state, false⟩
  | lexeme {state after : LineState} {written : List Char} {kind : TokenKind} :
      Fronts written kind rest → state.accept position.line kind = .ok after →
      Step position rest ⟨state, false⟩ written [⟨kind, position⟩] ⟨after, false⟩

/-- Steps of the scanner from a mode and a position on: it passes over some characters, which come
before the rest, leaves some tokens, and gets to a mode. -/
inductive Scans : Mode → Position → List Char → List Char → List Token → Mode → Prop where
  | done {mode : Mode} {position : Position} {rest : List Char} :
      Scans mode position [] rest [] mode
  | next {mode middle finish : Mode} {position : Position} {passed text rest : List Char}
      {front tokens : List Token} :
      Step position (text ++ rest) mode passed front middle →
      Scans middle (position.past passed) text rest tokens finish →
      Scans mode position (passed ++ text) rest (front ++ tokens) finish

theorem Position.past_append (position : Position) (first second : List Char) :
    position.past (first ++ second) = (position.past first).past second :=
  List.foldl_append

theorem IsBlank.feed_not_mem {blanks : List Char} (blank : IsBlank blanks) : '\n' ∉ blanks := by
  intro member
  have feed := blank _ member
  revert feed
  decide

theorem isBlank_singleton {c : Char} (blank : isLineBlank c = true) : IsBlank [c] := by
  simpa [IsBlank] using blank

theorem IsBlank.past_line {blanks : List Char} (blank : IsBlank blanks) (position : Position) :
    (position.past blanks).line = position.line := by
  rw [Position.past_of_visible blank.feed_not_mem]

theorem Position.past_feed (position : Position) (text : List Char) :
    position.past (text ++ ['\n']) = ⟨(position.past text).line + 1, 0⟩ := by
  rw [past_append]
  rfl

theorem feed_not_mem_continuation {returns : List Char} (carriage : ∀ c ∈ returns, c = '\r') :
    '\n' ∉ '\\' :: returns := by
  intro member
  rcases List.mem_cons.mp member with same | member
  · cases same
  · cases carriage _ member

theorem Position.past_continuation {returns : List Char} (carriage : ∀ c ∈ returns, c = '\r')
    (position : Position) : position.past ('\\' :: returns ++ ['\n']) = ⟨position.line + 1, 0⟩ := by
  rw [past_feed, past_of_visible (feed_not_mem_continuation carriage)]

theorem isBlank_takeWhile (text : List Char) : IsBlank (text.takeWhile isLineBlank) :=
  fun c member => List.all_eq_true.mp List.all_takeWhile c member

theorem IsBlank.takeWhile_append {blanks : List Char} {c : Char} (blank : IsBlank blanks)
    (visible : isLineBlank c = false) (rest : List Char) :
    (blanks ++ c :: rest).takeWhile isLineBlank = blanks ∧
      (blanks ++ c :: rest).dropWhile isLineBlank = c :: rest := by
  rw [List.takeWhile_append_of_pos blank, List.dropWhile_append_of_pos blank]
  simp [visible]

theorem isInLine_of_feed_not_mem {text : List Char} (inside : '\n' ∉ text) :
    ∀ c ∈ text, isInLine c = true := by
  intro c member
  rw [isInLine, bne_iff_ne]
  rintro rfl
  exact inside member

theorem EndsLine.takeWhile_append {comment rest : List Char} (ends : EndsLine rest)
    (inside : '\n' ∉ comment) :
    (comment ++ rest).takeWhile isInLine = comment ∧
      (comment ++ rest).dropWhile isInLine = rest := by
  have inLine := isInLine_of_feed_not_mem inside
  rw [List.takeWhile_append_of_pos inLine, List.dropWhile_append_of_pos inLine]
  rcases ends with rfl | ⟨rest, rfl⟩ <;> simp [isInLine]

theorem feed_not_mem_takeWhile (text : List Char) : '\n' ∉ text.takeWhile isInLine := by
  intro member
  have inLine := List.all_eq_true.mp List.all_takeWhile _ member
  revert inLine
  decide

theorem endsLine_dropWhile (text : List Char) : EndsLine (text.dropWhile isInLine) := by
  cases found : text.dropWhile isInLine with
  | nil => exact .inl rfl
  | cons c rest =>
      have stops := List.head?_dropWhile_not isInLine text
      rw [found, List.head?_cons] at stops
      simp only [isInLine, bne_eq_false_iff_eq] at stops
      exact .inr ⟨rest, by rw [stops]⟩

theorem Except.map_nil_append {ε α : Type} (result : Except ε (List α)) :
    result.map ([] ++ ·) = result := by
  cases result <;> rfl

/-- At the end of the text the scanner does not look at the blanks of the last line. -/
theorem scan_fresh_nil {state : LineState} {position : Position} {blanks : List Char}
    (blank : IsBlank blanks) :
    scan state true position blanks = state.finish (position.past blanks) := by
  have taken : blanks.takeWhile isLineBlank = blanks := List.takeWhile_eq_self_iff.mpr blank
  have dropped : blanks.dropWhile isLineBlank = [] := List.dropWhile_eq_nil_iff.mpr blank
  rw [scan.eq_def]
  simp only [if_true, taken]
  split
  · rfl
  · rename_i found
    rw [dropped] at found
    cases found

/-- At the front of a line the scanner looks at the first character behind the blanks. -/
theorem scan_fresh_cons {state : LineState} {position : Position} {blanks rest : List Char}
    {c : Char} (blank : IsBlank blanks) (visible : isLineBlank c = false) :
    scan state true position (blanks ++ c :: rest) =
      if c == '\n' then scan state true ((position.past blanks).after c) rest
      else if c == '#' then
        scan state true ((position.past blanks).past (c :: rest.takeWhile isInLine))
          (rest.dropWhile isInLine)
      else do
        let (tokens, state) ←
          state.indentTo (indentWidth 0 blanks) (position.past blanks).line
        return tokens ++ (← scan state false (position.past blanks) (c :: rest)) := by
  obtain ⟨taken, dropped⟩ := blank.takeWhile_append visible rest
  rw [scan.eq_def]
  simp only [if_true, taken]
  split
  · rename_i found
    rw [dropped] at found
    cases found
  · rename_i found
    rw [dropped] at found
    cases found
    rfl

theorem Step.scan_eq {position : Position} {rest passed : List Char} {mode next : Mode}
    {tokens : List Token} (step : Step position rest mode passed tokens next) :
    mode.scan position (passed ++ rest) =
      (next.scan (position.past passed) rest).map (tokens ++ ·) := by
  unfold Mode.scan
  cases step with
  | @blankLine state blanks blank =>
      rw [List.append_assoc, List.singleton_append, scan_fresh_cons blank rfl, Except.map_nil_append,
        Position.past_append]
      rfl
  | @commentLine state blanks comment blank inside ends =>
      obtain ⟨taken, dropped⟩ := ends.takeWhile_append inside
      rw [List.append_assoc, List.cons_append, scan_fresh_cons blank rfl, Except.map_nil_append,
        Position.past_append, taken, dropped]
      rfl
  | lastLine blank ended =>
      subst ended
      rw [List.append_nil, scan_fresh_nil blank, Except.map_nil_append, scan]
      rfl
  | @indent state after _ _ blank indented measured =>
      obtain ⟨c, rest, rfl, visible, feed, comment⟩ := indented
      rw [scan_fresh_cons blank visible]
      simp only [beq_iff_eq, feed, comment, if_false, blank.past_line, measured]
      change (scan after false (position.past passed) (c :: rest) >>= fun others =>
        pure (tokens ++ others)) = _
      cases scan after false (position.past passed) (c :: rest) <;> rfl
  | @blank state c isBlank =>
      rw [List.singleton_append, scan_blank isBlank, Except.map_nil_append]
      rfl
  | @comment state comment inside ends =>
      obtain ⟨taken, dropped⟩ := ends.takeWhile_append inside
      rw [List.cons_append, scan, Except.map_nil_append]
      simp only [taken, dropped]
      rfl
  | @continuation state returns carriage =>
      have dropped : (returns ++ '\n' :: rest).dropWhile (· == '\r') = '\n' :: rest := by
        rw [List.dropWhile_append_of_pos (by simpa using carriage)]
        rfl
      rw [Position.past_continuation carriage, Except.map_nil_append, List.append_assoc,
        List.cons_append, List.singleton_append, scan]
      simp only [show isLineBlank '\\' = false from rfl, Bool.false_eq_true, if_false,
        show ('\\' == '#') = false from rfl, show ('\\' == '\\') = true from rfl, if_true]
      split
      · rename_i more found
        rw [dropped] at found
        cases found
        rfl
      · rename_i others
        exact absurd dropped (others rest)
  | @lineEnd state flat =>
      rw [List.singleton_append, scan]
      simp only [Bool.false_eq_true, if_false, show isLineBlank '\n' = false from rfl, if_true,
        show ('\n' == '#') = false from rfl, show ('\n' == '\\') = false from rfl, beq_self_eq_true,
        flat]
      change (scan _ true (position.after '\n') rest >>= fun others =>
        pure (state.lineEnd position ++ others)) = (scan _ true (position.after '\n') rest).map _
      cases scan _ true (position.after '\n') rest <;> rfl
  | @innerLineEnd state nested =>
      rw [List.singleton_append, scan, Except.map_nil_append]
      simp only [nested]
      rfl
  | @lexeme state after written kind fronts accepted => exact scan_fronts fronts accepted

theorem Scans.scan_eq {mode finish : Mode} {position : Position} {text rest : List Char}
    {tokens : List Token} (scans : Scans mode position text rest tokens finish) :
    mode.scan position (text ++ rest) =
      (finish.scan (position.past text) rest).map (tokens ++ ·) := by
  induction scans with
  | done => exact (Except.map_nil_append _).symm
  | next step _ inductionHypothesis =>
      rw [List.append_assoc, step.scan_eq, inductionHypothesis, Except.map_map,
        Position.past_append]
      simp only [List.append_assoc]

/-- The scanner steps through a whole text and closes at its end what is open there. -/
inductive Completes (mode : Mode) (position : Position) (text : List Char) :
    List Token → Prop where
  | intro {front last : List Token} {finish : LineState} :
      Scans mode position text [] front ⟨finish, false⟩ →
      finish.finish (position.past text) = .ok last → Completes mode position text (front ++ last)

namespace Completes

theorem done {state : LineState} {position : Position} {tokens : List Token}
    (ended : state.finish position = .ok tokens) : Completes ⟨state, false⟩ position [] tokens :=
  .intro .done ended

theorem next {mode middle : Mode} {position : Position} {passed text : List Char}
    {front tokens : List Token} (step : Step position text mode passed front middle)
    (completes : Completes middle (position.past passed) text tokens) :
    Completes mode position (passed ++ text) (front ++ tokens) := by
  cases completes with
  | intro scans ended =>
      rw [← List.append_assoc]
      refine .intro (.next ?_ scans) ?_
      · rw [List.append_nil]
        exact step
      · rw [Position.past_append]
        exact ended

theorem pass {mode middle : Mode} {position : Position} {passed text : List Char}
    {tokens : List Token} (step : Step position text mode passed [] middle)
    (completes : Completes middle (position.past passed) text tokens) :
    Completes mode position (passed ++ text) tokens :=
  completes.next step

end Completes

theorem split_continuation {rest more : List Char}
    (found : rest.dropWhile (· == '\r') = '\n' :: more) :
    (∀ c ∈ rest.takeWhile (· == '\r'), c = '\r') ∧
      '\\' :: rest = '\\' :: rest.takeWhile (· == '\r') ++ ['\n'] ++ more := by
  constructor
  · intro c member
    simpa using List.all_eq_true.mp List.all_takeWhile c member
  · rw [List.append_assoc, List.cons_append, List.singleton_append, ← found,
      List.takeWhile_append_dropWhile]

theorem visible_of_dropWhile {text rest : List Char} {c : Char}
    (found : text.dropWhile isLineBlank = c :: rest) : isLineBlank c = false := by
  have stops := List.head?_dropWhile_not isLineBlank text
  rw [found, List.head?_cons] at stops
  exact stops

theorem completes_of_scan {state : LineState} {fresh : Bool} {position : Position} {text : List Char}
    {tokens : List Token} (scanned : scan state fresh position text = .ok tokens) :
    Completes ⟨state, fresh⟩ position text tokens := by
  fun_induction scan state fresh position text generalizing tokens
  -- at the front of a line
  case case1 state position text blanks here found =>
      have blank : IsBlank text := List.dropWhile_eq_nil_iff.mp found
      have taken : blanks = text := List.takeWhile_eq_self_iff.mpr blank
      have ended : state.finish (position.past text) = .ok tokens := taken ▸ scanned
      have step : Step position [] ⟨state, true⟩ text [] ⟨state, false⟩ := .lastLine blank rfl
      simpa using Completes.pass step (.done ended)
  case case2 state position text blanks here c rest found feed inductionHypothesis =>
      obtain rfl := beq_iff_eq.mp feed
      rw [← List.takeWhile_append_dropWhile (p := isLineBlank) (l := text), found, List.append_cons]
      refine .pass (.blankLine (isBlank_takeWhile text)) ?_
      rw [Position.past_append]
      exact inductionHypothesis scanned
  case case3 state position text blanks here c rest found feed comment inductionHypothesis =>
      obtain rfl := beq_iff_eq.mp comment
      have split : text = (blanks ++ '#' :: rest.takeWhile isInLine) ++ rest.dropWhile isInLine := by
        rw [List.append_assoc, List.cons_append, List.takeWhile_append_dropWhile, ← found]
        exact List.takeWhile_append_dropWhile.symm
      rw [split]
      refine .pass (.commentLine (isBlank_takeWhile text) (feed_not_mem_takeWhile rest)
        (endsLine_dropWhile rest)) ?_
      rw [Position.past_append]
      exact inductionHypothesis scanned
  case case4 state position text blanks here c rest found feed comment inductionHypothesis =>
      obtain ⟨⟨front, after⟩, indented, scanned⟩ := ok_of_bind_ok scanned
      obtain ⟨others, behind, ended⟩ := ok_of_bind_ok scanned
      cases ended
      have blank : IsBlank blanks := isBlank_takeWhile text
      have starts : IsIndented (c :: rest) :=
        ⟨c, rest, rfl, visible_of_dropWhile found, by simpa using feed, by simpa using comment⟩
      rw [blank.past_line] at indented
      rw [← List.takeWhile_append_dropWhile (p := isLineBlank) (l := text), found]
      exact .next (.indent blank starts indented) (inductionHypothesis after behind)
  -- inside a line
  case case5 state fresh position inside =>
      obtain rfl := eq_false_of_ne_true inside
      exact .done scanned
  case case6 state fresh position inside c rest isBlank inductionHypothesis =>
      obtain rfl := eq_false_of_ne_true inside
      exact .pass (.blank isBlank) (inductionHypothesis scanned)
  case case7 state fresh position inside c rest blank comment inductionHypothesis =>
      obtain rfl := eq_false_of_ne_true inside
      obtain rfl := beq_iff_eq.mp comment
      have split : '#' :: rest = ('#' :: rest.takeWhile isInLine) ++ rest.dropWhile isInLine := by
        rw [List.cons_append, List.takeWhile_append_dropWhile]
      rw [split]
      exact .pass (.comment (feed_not_mem_takeWhile rest) (endsLine_dropWhile rest))
        (inductionHypothesis scanned)
  case case8 state fresh position inside c rest blank comment continued more found inductionHypothesis =>
      obtain rfl := eq_false_of_ne_true inside
      obtain rfl := beq_iff_eq.mp continued
      obtain ⟨carriage, split⟩ := split_continuation found
      rw [split]
      refine .pass (.continuation carriage) ?_
      rw [Position.past_continuation carriage]
      exact inductionHypothesis scanned
  case case9 => cases scanned
  case case10 state fresh position inside c rest blank comment continued feed flat inductionHypothesis =>
      obtain rfl := eq_false_of_ne_true inside
      obtain ⟨others, behind, ended⟩ := ok_of_bind_ok scanned
      cases ended
      obtain rfl := beq_iff_eq.mp feed
      exact .next (.lineEnd flat) (inductionHypothesis behind)
  case case11 state fresh position inside c rest blank comment continued feed nested inductionHypothesis =>
      obtain rfl := eq_false_of_ne_true inside
      obtain rfl := beq_iff_eq.mp feed
      exact .pass (.innerLineEnd nested) (inductionHypothesis scanned)
  case case12 => cases scanned
  case case13 state fresh position inside c rest blank comment continued feed lexeme read inductionHypothesis =>
      obtain rfl := eq_false_of_ne_true inside
      obtain ⟨after, accepted, scanned⟩ := ok_of_bind_ok scanned
      obtain ⟨others, behind, ended⟩ := ok_of_bind_ok scanned
      cases ended
      have opens : opensLexeme c = true := by simp_all [opensLexeme]
      have fronts := fronts_of_read opens read
      have step := Completes.next (.lexeme fronts accepted) (inductionHypothesis after behind)
      rwa [List.take_append_drop] at step

end Stepwise.Script
