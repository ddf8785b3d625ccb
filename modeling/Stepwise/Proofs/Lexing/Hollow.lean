import Stepwise.Proofs.Lexing.Insertion
import Stepwise.Proofs.Lexing.Nesting

/-!
Lines that have an indent but no token.

The scanner measures the indent of a line at its first character behind the blanks.  If that starts a
continuation, the rest of the line may be without a token.  The indent is then not followed by a written
token, and there is no other way to get that.
-/

namespace Stepwise.Script

/-- A text that starts with the rest of a logical line and has no token in it. -/
inductive TokenFree : List Char → Prop where
  | ended {rest : List Char} : EndsLine rest → TokenFree rest
  | blank {c : Char} {rest : List Char} : isLineBlank c = true → TokenFree rest → TokenFree (c :: rest)
  | comment {comment rest : List Char} : '\n' ∉ comment → EndsLine rest →
      TokenFree ('#' :: comment ++ rest)
  | continuation {returns rest : List Char} : (∀ c ∈ returns, c = '\r') → TokenFree rest →
      TokenFree ('\\' :: returns ++ ['\n'] ++ rest)

/-- A text that starts with a line of blanks and a continuation, without a token up to its end. -/
def HollowLine (text : List Char) : Prop :=
  ∃ blanks returns rest, IsBlank blanks ∧ (∀ c ∈ returns, c = '\r') ∧ TokenFree rest ∧
    text = blanks ++ ('\\' :: returns ++ ['\n'] ++ rest)

theorem TokenFree.hollowLine {blanks rest : List Char} (free : TokenFree rest) (blank : IsBlank blanks)
    (indented : IsIndented rest) : HollowLine (blanks ++ rest) := by
  obtain ⟨c, text, rfl, visible, feed, comment⟩ := indented
  generalize same : c :: text = whole at free
  cases free with
  | ended ends =>
      rcases ends with rfl | ⟨rest, rfl⟩
      · cases same
      · cases same
        exact absurd rfl feed
  | blank isBlank =>
      cases same
      rw [visible] at isBlank
      cases isBlank
  | comment =>
      cases same
      exact absurd rfl comment
  | continuation carriage free => exact ⟨blanks, _, _, blank, carriage, free, rfl⟩

theorem IsBlank.not_endsLine {blanks rest : List Char} (blank : IsBlank blanks)
    (indented : IsIndented rest) : ¬EndsLine (blanks ++ rest) := by
  obtain ⟨c, text, rfl, visible, feed, comment⟩ := indented
  rintro (none | ⟨behind, same⟩)
  · simp at none
  · cases blanks with
    | nil =>
        cases same
        exact feed rfl
    | cons d blanks =>
        cases same
        exact absurd (blank _ List.mem_cons_self) (by decide)

theorem LineState.finish_isIndent {state : LineState} {position : Position} {tokens : List Token}
    (ended : state.finish position = .ok tokens) : ∀ token ∈ tokens, token.kind ≠ .indent := by
  unfold finish at ended
  split at ended
  · cases ended
  · cases ended
    intro token member same
    rcases List.mem_append.mp member with member | member
    · rcases List.mem_append.mp member with member | member
      · unfold lineEnd at member
        split at member
        · rw [List.mem_singleton.mp member] at same
          cases same
        · cases member
      · obtain ⟨_, -, rfl⟩ := List.mem_map.mp member
        cases same
    · rw [List.mem_singleton.mp member] at same
      cases same

/-- The step that leaves an indent measures the blanks of a line, and leaves nothing else. -/
theorem Step.indents {position : Position} {rest passed : List Char} {mode next : Mode}
    {tokens : List Token} (step : Step position rest mode passed tokens next) {opening : Token}
    (member : opening ∈ tokens) (indent : opening.kind = .indent) :
    tokens = [opening] ∧ IsBlank passed ∧ IsIndented rest ∧ mode.fresh = true ∧
      next.fresh = false ∧ next.state.depth = mode.state.depth ∧
      next.state.started = mode.state.started := by
  cases step with
  | @indent state after _ _ blank indented measured =>
      unfold LineState.indentTo at measured
      simp only at measured
      split at measured
      · cases measured
        obtain rfl := List.mem_singleton.mp member
        exact ⟨rfl, blank, indented, rfl, rfl, rfl, rfl⟩
      · split at measured
        · cases measured
          obtain ⟨_, -, rfl⟩ := List.mem_map.mp member
          cases indent
        · cases measured
  | @lineEnd state flat =>
      unfold LineState.lineEnd at member
      split at member
      · rw [List.mem_singleton.mp member] at indent
        cases indent
      · cases member
  | lexeme fronts accepted =>
      obtain rfl := List.mem_singleton.mp member
      have written := fronts.isWritten
      simp only at indent
      rw [indent] at written
      cases written
  | _ => cases member

/-- The scanner comes to the front of a line, measures an indent there and goes on behind the blanks. -/
inductive Indents (mode : Mode) (position : Position) (rest : List Char) (front back : List Token)
    (finish : Mode) : List Char → Prop where
  | intro {before blanks behind : List Char} {state next : LineState} :
      Scans mode position before (blanks ++ (behind ++ rest)) front ⟨state, true⟩ →
      IsBlank blanks → IsIndented (behind ++ rest) → next.depth = state.depth →
      next.started = state.started →
      Scans ⟨next, false⟩ ((position.past before).past blanks) behind rest back finish →
      Indents mode position rest front back finish (before ++ (blanks ++ behind))

theorem append_eq_append_cons {α : Type} {first second front back : List α} {item : α}
    (same : first ++ second = front ++ item :: back) :
    (∃ later, front = first ++ later ∧ second = later ++ item :: back) ∨
      ∃ later, first = front ++ item :: later ∧ back = later ++ second := by
  rcases List.append_eq_append_iff.mp same with inSecond | ⟨later, atFront, atItem⟩
  · exact .inl inSecond
  · cases later with
    | nil => exact .inl ⟨[], by simp [atFront], atItem.symm⟩
    | cons found later =>
        cases atItem
        exact .inr ⟨later, atFront, rfl⟩

theorem Scans.indents {mode finish : Mode} {position : Position} {text rest : List Char}
    {tokens front back : List Token} {opening : Token}
    (scans : Scans mode position text rest tokens finish)
    (split : tokens = front ++ opening :: back) (indent : opening.kind = .indent) :
    Indents mode position rest front back finish text := by
  induction scans generalizing front with
  | done => simp at split
  | @next mode middle finish position passed text rest here tokens step scans inductionHypothesis =>
      rcases append_eq_append_cons split with ⟨later, rfl, left⟩ | ⟨later, rfl, rfl⟩
      · cases inductionHypothesis left with
        | @intro before _ _ _ _ toFront blank indented depth started onward =>
            rw [← List.append_assoc]
            rw [← position.past_append passed before] at onward
            refine .intro (.next ?_ toFront) blank indented depth started onward
            simpa only [List.append_assoc] using step
      · have member : opening ∈ front ++ opening :: later :=
          List.mem_append_right _ List.mem_cons_self
        obtain ⟨only, blank, indented, fresh, inside, depth, started⟩ := step.indents member indent
        obtain ⟨rfl, rfl⟩ : front = [] ∧ later = [] := by
          have single := congrArg List.length only
          simp only [List.length_append, List.length_cons, List.length_nil] at single
          exact ⟨List.length_eq_zero_iff.mp (by omega), List.length_eq_zero_iff.mp (by omega)⟩
        obtain ⟨state, _⟩ := mode
        obtain ⟨next, _⟩ := middle
        cases fresh
        cases inside
        exact @Indents.intro _ _ _ _ _ _ [] _ _ _ _ .done blank indented depth started scans

/-- A step to the front of a line passes over a line feed last, unless it stops behind a comment. -/
theorem Step.wholeLines {position : Position} {rest passed : List Char} {mode next : Mode}
    {tokens : List Token} (step : Step position rest mode passed tokens next)
    (fresh : next.fresh = true) (continues : ¬EndsLine rest) : WholeLines passed := by
  cases step with
  | blankLine => simp [WholeLines]
  | commentLine _ _ ends => exact absurd ends continues
  | lineEnd => simp [WholeLines]
  | _ => cases fresh

theorem Scans.wholeLines {mode finish : Mode} {position : Position} {text rest : List Char}
    {tokens : List Token} (scans : Scans mode position text rest tokens finish)
    (fresh : finish.fresh = true) (continues : ¬EndsLine rest) : WholeLines text := by
  induction scans with
  | done => nofun
  | @next _ middle _ _ passed text _ _ _ step scans inductionHypothesis =>
      cases text with
      | nil =>
          have atFront : middle.fresh = true := by
            cases inside : middle.fresh with
            | true => rfl
            | false => exact absurd (scans.feed_mem inside fresh) List.not_mem_nil
          rw [List.append_nil]
          exact step.wholeLines atFront continues
      | cons c text =>
          intro last found
          rw [List.getLast?_append_of_ne_nil _ (List.cons_ne_nil c text)] at found
          exact inductionHypothesis fresh continues last found

/-- A scan from inside a line on that has no token yet leaves a written token first, or no token on the
line. -/
theorem Scans.tokenFree {mode finish : Mode} {position : Position} {text rest : List Char}
    {tokens : List Token} (scans : Scans mode position text rest tokens finish) (ended : rest = [])
    (inside : mode.fresh = false) (flat : mode.state.depth = 0) (empty : mode.state.started = false) :
    TokenFree text ∨ ∃ token back, tokens = token :: back ∧ token.kind.isWritten = true := by
  induction scans with
  | done => exact .inl (.ended (.inl rfl))
  | next step scans inductionHypothesis =>
      subst ended
      cases step with
      | blankLine => cases inside
      | commentLine => cases inside
      | lastLine => cases inside
      | indent => cases inside
      | blank isBlank =>
          exact (inductionHypothesis rfl rfl flat empty).imp (.blank isBlank) id
      | comment feed ends => exact .inl (.comment feed (by simpa using ends))
      | continuation carriage =>
          exact (inductionHypothesis rfl rfl flat empty).imp (.continuation carriage) id
      | lineEnd => exact .inl (.ended (.inr ⟨_, rfl⟩))
      | innerLineEnd nested => exact absurd flat nested
      | lexeme fronts => exact .inr ⟨_, _, rfl, fronts.isWritten⟩

theorem tokenize_hollow {source : String} {front back : List Token} {opening following : Token}
    (accepted : tokenize source = .ok (front ++ opening :: following :: back))
    (indent : opening.kind = .indent) (unwritten : following.kind.isWritten = false) :
    ∃ before after, source.toList = before ++ after ∧ LineFront before after front ∧
      HollowLine after := by
  have completes := completes_of_scan accepted
  generalize whole : front ++ opening :: following :: back = tokens at completes
  cases completes with
  | @intro scanned last finish scans ended =>
      rcases append_eq_append_cons whole.symm with ⟨later, -, atEnd⟩ | ⟨later, split, behind⟩
      · have member : opening ∈ last := atEnd ▸ List.mem_append_right _ List.mem_cons_self
        exact absurd indent (LineState.finish_isIndent ended opening member)
      · generalize source.toList = text at scans
        cases scans.indents split indent with
        | @intro before blanks rest state next toFront blank indented depth started onward =>
            rw [List.append_nil] at toFront indented
            obtain ⟨flat, empty⟩ := (toFront.nesting Mode.initial_fits).1 rfl
            have continues : ¬EndsLine (blanks ++ rest) := blank.not_endsLine indented
            refine ⟨before, _, rfl, ⟨toFront.wholeLines rfl continues, state, toFront⟩, ?_⟩
            rcases onward.tokenFree rfl rfl (depth.trans flat) (started.trans empty) with
              free | ⟨token, others, rfl, written⟩
            · exact free.hollowLine blank indented
            · cases behind
              rw [unwritten] at written
              cases written

end Stepwise.Script
