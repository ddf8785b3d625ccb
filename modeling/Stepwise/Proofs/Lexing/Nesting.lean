import Stepwise.Proofs.Lexing.Steps

/-!
The form of the token streams that the parser relies on.

Indents and brackets are closed in the order of nesting, logical lines end outside of brackets and are
not empty, and the tokens stand in the order of the source.  The first two are a matter of the kinds
alone: `nestingAfter?` reads them one by one and keeps what is open.
-/

namespace Stepwise.Script

/-- How many indents and brackets are open, and whether the logical line has a token yet. -/
structure Nesting where
  indents : Nat
  depth : Nat
  filled : Bool
  deriving DecidableEq

def Nesting.outside : Nesting := ⟨0, 0, false⟩

namespace TokenKind

def opens : TokenKind → Bool
  | .symbol sign => sign.opens
  | _ => false

def closes : TokenKind → Bool
  | .symbol sign => sign.closes
  | _ => false

/-- What is open behind a token that may stand here.  Layout stands outside of brackets, the end of a
line only where it has a token, and an indent or its end where it has none. -/
def nestingAfter? (nesting : Nesting) : TokenKind → Option Nesting
  | .newline =>
      if nesting.depth = 0 ∧ nesting.filled then some { nesting with filled := false } else none
  | .indent =>
      if nesting.depth = 0 ∧ !nesting.filled then some { nesting with indents := nesting.indents + 1 }
      else none
  | .dedent =>
      match nesting.indents with
      | 0 => none
      | indents + 1 =>
          if nesting.depth = 0 ∧ !nesting.filled then some { nesting with indents := indents } else none
  | .endOfInput => none
  | kind => (kind.depthAfter? nesting.depth).map fun depth => ⟨nesting.indents, depth, true⟩

end TokenKind

def nestingAfter? (nesting : Nesting) (tokens : List Token) : Option Nesting :=
  tokens.foldlM (fun nesting token => token.kind.nestingAfter? nesting) nesting

@[simp] theorem nestingAfter?_nil (nesting : Nesting) : nestingAfter? nesting [] = some nesting := rfl

@[simp] theorem nestingAfter?_cons (nesting : Nesting) (token : Token) (tokens : List Token) :
    nestingAfter? nesting (token :: tokens) =
      (token.kind.nestingAfter? nesting).bind fun nesting => nestingAfter? nesting tokens := by
  simp [nestingAfter?, List.foldlM_cons]

@[simp] theorem nestingAfter?_append (nesting : Nesting) (front tokens : List Token) :
    nestingAfter? nesting (front ++ tokens) =
      (nestingAfter? nesting front).bind fun nesting => nestingAfter? nesting tokens := by
  simp [nestingAfter?, List.foldlM_append]

namespace TokenKind

/-- A bracket more is open behind a token that opens one, and one less behind a token that closes it. -/
theorem depthAfter?_balance {kind : TokenKind} {depth after : Nat}
    (found : kind.depthAfter? depth = some after) :
    after + kind.closes.toNat = depth + kind.opens.toNat := by
  cases kind with
  | symbol sign =>
      have apart : sign.opens = true → sign.closes = false := by
        cases sign <;> decide
      simp only [depthAfter?] at found
      simp only [opens, closes]
      split at found
      · rename_i opening
        cases found
        simp [opening, apart opening]
      · rename_i opening
        split at found
        · rename_i closing
          cases depth with
          | zero => cases found
          | succ depth =>
              cases found
              simp [opening, closing]
        · rename_i closing
          cases found
          simp [opening, closing]
  | _ =>
      cases found
      rfl

theorem nestingAfter?_of_isWritten {kind : TokenKind} (written : kind.isWritten = true)
    (nesting : Nesting) :
    kind.nestingAfter? nesting =
      (kind.depthAfter? nesting.depth).map fun depth => ⟨nesting.indents, depth, true⟩ := by
  cases kind <;> first | rfl | cases written

theorem nestingAfter?_balance {kind : TokenKind} {nesting after : Nesting}
    (found : kind.nestingAfter? nesting = some after) :
    kind.isWritten = true ∧ after.filled = true ∧ after.indents = nesting.indents ∧
        after.depth + kind.closes.toNat = nesting.depth + kind.opens.toNat ∨
      kind.isLayout = true ∧ after.filled = false ∧ nesting.depth = 0 ∧ after.depth = 0 ∧
        (kind = .newline ∧ nesting.filled = true ∧ after.indents = nesting.indents ∨
          kind = .indent ∧ after.indents = nesting.indents + 1 ∨
          kind = .dedent ∧ after.indents + 1 = nesting.indents) := by
  cases written : kind.isWritten with
  | true =>
      rw [nestingAfter?_of_isWritten written] at found
      obtain ⟨depth, read, rfl⟩ := Option.map_eq_some_iff.mp found
      exact .inl ⟨rfl, rfl, rfl, depthAfter?_balance read⟩
  | false =>
      right
      obtain ⟨indents, depth, filled⟩ := nesting
      cases kind with
      | newline =>
          simp only [nestingAfter?, Option.ite_none_right_eq_some, Option.some.injEq] at found
          obtain ⟨⟨flat, filled⟩, rfl⟩ := found
          exact ⟨rfl, rfl, flat, flat, .inl ⟨rfl, filled, rfl⟩⟩
      | indent =>
          simp only [nestingAfter?, Option.ite_none_right_eq_some, Option.some.injEq] at found
          obtain ⟨⟨flat, fresh⟩, rfl⟩ := found
          exact ⟨rfl, by simpa using fresh, flat, flat, .inr (.inl ⟨rfl, rfl⟩)⟩
      | dedent =>
          cases indents with
          | zero => cases found
          | succ indents =>
              simp only [nestingAfter?, Option.ite_none_right_eq_some, Option.some.injEq] at found
              obtain ⟨⟨flat, fresh⟩, rfl⟩ := found
              exact ⟨rfl, by simpa using fresh, flat, flat, .inr (.inr ⟨rfl, rfl⟩)⟩
      | endOfInput => cases found
      | _ => cases written

end TokenKind

namespace TokenKind

theorem isWritten_not_layout {kind : TokenKind} (written : kind.isWritten = true) :
    kind.isLayout = false := by
  cases kind <;> first | rfl | cases written

theorem flat_of_layout {kind : TokenKind} {nesting after : Nesting} (layout : kind.isLayout = true)
    (found : kind.nestingAfter? nesting = some after) : nesting.depth = 0 := by
  rcases nestingAfter?_balance found with ⟨written, -⟩ | ⟨-, -, flat, -⟩
  · rw [isWritten_not_layout written] at layout
    cases layout
  · exact flat

theorem filled_of_newline {nesting after : Nesting}
    (found : newline.nestingAfter? nesting = some after) : nesting.filled = true := by
  rcases nestingAfter?_balance found with ⟨written, -⟩ | ⟨-, -, -, -, moved⟩
  · cases written
  · rcases moved with ⟨-, filled, -⟩ | ⟨same, -⟩ | ⟨same, -⟩
    · exact filled
    · cases same
    · cases same

end TokenKind

def countKinds (sort : TokenKind → Bool) (tokens : List Token) : Nat :=
  tokens.countP fun token => sort token.kind

@[simp] theorem countKinds_nil (sort : TokenKind → Bool) : countKinds sort [] = 0 := rfl

@[simp] theorem countKinds_cons (sort : TokenKind → Bool) (token : Token) (tokens : List Token) :
    countKinds sort (token :: tokens) = countKinds sort tokens + (sort token.kind).toNat := by
  unfold countKinds
  rw [List.countP_cons]
  cases sort token.kind <;> rfl

@[simp] theorem countKinds_append (sort : TokenKind → Bool) (front tokens : List Token) :
    countKinds sort (front ++ tokens) = countKinds sort front + countKinds sort tokens :=
  List.countP_append

namespace TokenKind

def isIndent : TokenKind → Bool
  | .indent => true
  | _ => false

def isDedent : TokenKind → Bool
  | .dedent => true
  | _ => false

theorem isWritten_not_indent {kind : TokenKind} (written : kind.isWritten = true) :
    kind.isIndent = false ∧ kind.isDedent = false := by
  cases kind <;> first | exact ⟨rfl, rfl⟩ | cases written

theorem isLayout_not_bracket {kind : TokenKind} (layout : kind.isLayout = true) :
    kind.opens = false ∧ kind.closes = false := by
  cases kind <;> first | exact ⟨rfl, rfl⟩ | cases layout

end TokenKind

/-- What is open behind some tokens is what was open before and what they leave open. -/
theorem nestingAfter?_counts {nesting after : Nesting} {tokens : List Token}
    (found : nestingAfter? nesting tokens = some after) :
    after.indents + countKinds TokenKind.isDedent tokens =
        nesting.indents + countKinds TokenKind.isIndent tokens ∧
      after.depth + countKinds TokenKind.closes tokens =
        nesting.depth + countKinds TokenKind.opens tokens := by
  induction tokens generalizing nesting with
  | nil =>
      cases found
      exact ⟨rfl, rfl⟩
  | cons token tokens inductionHypothesis =>
      rw [nestingAfter?_cons] at found
      obtain ⟨middle, read, behind⟩ := Option.bind_eq_some_iff.mp found
      obtain ⟨indents, depths⟩ := inductionHypothesis behind
      simp only [countKinds_cons]
      rcases TokenKind.nestingAfter?_balance read with ⟨written, -, same, moved⟩ |
        ⟨layout, -, flat, flat', moved⟩
      · obtain ⟨indent, dedent⟩ := TokenKind.isWritten_not_indent written
        rw [indent, dedent]
        simp only [Bool.toNat_false]
        omega
      · obtain ⟨opens, closes⟩ := TokenKind.isLayout_not_bracket layout
        rw [opens, closes]
        rcases moved with ⟨kind, -, moved⟩ | ⟨kind, moved⟩ | ⟨kind, moved⟩ <;>
          simp only [kind, TokenKind.isIndent, TokenKind.isDedent, Bool.toNat_false,
            Bool.toNat_true] <;> omega

theorem written_of_filled {nesting after : Nesting} {tokens : List Token}
    (found : nestingAfter? nesting tokens = some after) (empty : nesting.filled = false)
    (filled : after.filled = true) :
    ∃ front token, tokens = front ++ [token] ∧ token.kind.isWritten = true := by
  rcases List.eq_nil_or_concat tokens with rfl | ⟨front, token, rfl⟩
  · cases found
    rw [empty] at filled
    cases filled
  · refine ⟨front, token, List.concat_eq_append, ?_⟩
    rw [List.concat_eq_append, nestingAfter?_append] at found
    obtain ⟨middle, -, read⟩ := Option.bind_eq_some_iff.mp found
    simp only [nestingAfter?_cons, nestingAfter?_nil] at read
    rcases TokenKind.nestingAfter?_balance (by simpa using read) with ⟨written, -⟩ | ⟨-, unfilled, -⟩
    · exact written
    · rw [filled] at unfilled
      cases unfilled

/-- What is open in a state of the scanner. -/
def LineState.nesting (state : LineState) : Nesting :=
  ⟨state.indents.length, state.depth, state.started⟩

/-- At the front of a line no bracket is open and the logical line has no token. -/
def Mode.Fits (mode : Mode) : Prop :=
  mode.fresh = true → mode.state.depth = 0 ∧ mode.state.started = false

theorem Mode.initial_fits : Mode.initial.Fits := fun _ => ⟨rfl, rfl⟩

theorem Mode.fits_inside (state : LineState) : (⟨state, false⟩ : Mode).Fits := nofun

theorem Fronts.isWritten {written rest : List Char} {kind : TokenKind}
    (fronts : Fronts written kind rest) : kind.isWritten = true := by
  cases fronts with
  | intro _ found _ => exact Lexeme.read_isWritten found

theorem LineState.accept_nesting {state after : LineState} {line : Nat} {kind : TokenKind}
    (written : kind.isWritten = true) (accepted : state.accept line kind = .ok after) :
    kind.nestingAfter? state.nesting = some after.nesting := by
  obtain ⟨depth, found, rfl⟩ := depthAfter?_of_accept accepted
  rw [TokenKind.nestingAfter?_of_isWritten written, LineState.nesting, found]
  rfl

theorem nestingAfter?_dedents (position : Position) (closed : List Nat) (indents : Nat) :
    nestingAfter? ⟨closed.length + indents, 0, false⟩ (closed.map fun _ => ⟨.dedent, position⟩) =
      some ⟨indents, 0, false⟩ := by
  induction closed with
  | nil => simp
  | cons width closed inductionHypothesis =>
      rw [List.map_cons, nestingAfter?_cons, List.length_cons, Nat.add_right_comm,
        TokenKind.nestingAfter?]
      exact inductionHypothesis

theorem LineState.indentTo_nesting {state after : LineState} {width line : Nat}
    {tokens : List Token} (flat : state.depth = 0) (empty : state.started = false)
    (measured : state.indentTo width line = .ok (tokens, after)) :
    nestingAfter? state.nesting tokens = some after.nesting := by
  unfold indentTo at measured
  simp only at measured
  split at measured
  · cases measured
    simp [nesting, flat, empty, TokenKind.nestingAfter?]
  · split at measured
    · cases measured
      have parts : state.indents.length =
          (state.indents.takeWhile (width < ·)).length + (state.indents.dropWhile (width < ·)).length := by
        rw [← List.length_append, List.takeWhile_append_dropWhile]
      rw [nesting, parts, flat, empty, nestingAfter?_dedents]
      rfl
    · cases measured

theorem LineState.lineEnd_nesting {state : LineState} (flat : state.depth = 0)
    (position : Position) :
    nestingAfter? state.nesting (state.lineEnd position) =
      some ⟨state.indents.length, 0, false⟩ := by
  unfold lineEnd
  cases filled : state.started with
  | true => simp [nesting, flat, filled, TokenKind.nestingAfter?]
  | false => simp [nesting, flat, filled]

/-- The tokens of a step may stand where it starts, and what is open behind them is what the scanner
keeps. -/
theorem Step.nesting {position : Position} {rest passed : List Char} {mode next : Mode}
    {tokens : List Token} (step : Step position rest mode passed tokens next) (fits : mode.Fits) :
    next.Fits ∧ nestingAfter? mode.state.nesting tokens = some next.state.nesting := by
  cases step with
  | blankLine => exact ⟨fits, rfl⟩
  | commentLine => exact ⟨fits, rfl⟩
  | lastLine => exact ⟨Mode.fits_inside _, rfl⟩
  | indent _ _ measured =>
      obtain ⟨flat, empty⟩ := fits rfl
      exact ⟨Mode.fits_inside _, LineState.indentTo_nesting flat empty measured⟩
  | blank => exact ⟨fits, rfl⟩
  | comment => exact ⟨fits, rfl⟩
  | continuation => exact ⟨fits, rfl⟩
  | lineEnd flat =>
      refine ⟨fun _ => ⟨flat, rfl⟩, ?_⟩
      rw [LineState.lineEnd_nesting flat, LineState.nesting, flat]
  | innerLineEnd => exact ⟨fits, rfl⟩
  | lexeme fronts accepted =>
      refine ⟨Mode.fits_inside _, ?_⟩
      rw [nestingAfter?_cons, LineState.accept_nesting fronts.isWritten accepted]
      rfl

theorem Scans.nesting {mode finish : Mode} {position : Position} {text rest : List Char}
    {tokens : List Token} (scans : Scans mode position text rest tokens finish) (fits : mode.Fits) :
    finish.Fits ∧ nestingAfter? mode.state.nesting tokens = some finish.state.nesting := by
  induction scans with
  | done => exact ⟨fits, rfl⟩
  | next step _ inductionHypothesis =>
      obtain ⟨fits, front⟩ := step.nesting fits
      obtain ⟨fits, behind⟩ := inductionHypothesis fits
      rw [nestingAfter?_append, front]
      exact ⟨fits, behind⟩

theorem LineState.finish_nesting {state : LineState} {position : Position} {tokens : List Token}
    (ended : state.finish position = .ok tokens) :
    ∃ front, tokens = front ++ [⟨.endOfInput, position⟩] ∧
      nestingAfter? state.nesting front = some .outside := by
  unfold finish at ended
  split at ended
  · cases ended
  · rename_i flat
    cases ended
    refine ⟨_, rfl, ?_⟩
    rw [nestingAfter?_append, LineState.lineEnd_nesting (Nat.eq_zero_of_not_pos flat)]
    exact nestingAfter?_dedents ⟨position.line, 0⟩ state.indents 0

theorem Completes.nesting {mode : Mode} {position : Position} {text : List Char}
    {tokens : List Token} (completes : Completes mode position text tokens) (fits : mode.Fits) :
    ∃ front last, tokens = front ++ [last] ∧ last.kind = .endOfInput ∧
      nestingAfter? mode.state.nesting front = some .outside := by
  cases completes with
  | intro scans ended =>
      obtain ⟨-, front⟩ := scans.nesting fits
      obtain ⟨last, rfl, behind⟩ := LineState.finish_nesting ended
      refine ⟨_, _, (List.append_assoc ..).symm, rfl, ?_⟩
      rw [nestingAfter?_append, front]
      exact behind

namespace Position

def Before (first second : Position) : Prop :=
  first.line < second.line ∨ first.line = second.line ∧ first.column < second.column

def AtOrBefore (first second : Position) : Prop := first = second ∨ first.Before second

theorem Before.trans {first second third : Position} (front : first.Before second)
    (behind : second.Before third) : first.Before third := by
  unfold Before at *
  omega

theorem AtOrBefore.trans {first second third : Position} (front : first.AtOrBefore second)
    (behind : second.AtOrBefore third) : first.AtOrBefore third := by
  rcases front with rfl | front
  · exact behind
  · rcases behind with rfl | behind
    · exact .inr front
    · exact .inr (front.trans behind)

theorem Before.trans_atOrBefore {first second third : Position} (front : first.Before second)
    (behind : second.AtOrBefore third) : first.Before third := by
  rcases behind with rfl | behind
  · exact front
  · exact front.trans behind

theorem before_after (position : Position) (c : Char) : position.Before (position.after c) := by
  unfold after Before
  split
  · exact .inl (Nat.lt_succ_self _)
  · exact .inr ⟨rfl, Nat.lt_succ_self _⟩

theorem atOrBefore_past (position : Position) (text : List Char) :
    position.AtOrBefore (position.past text) := by
  induction text generalizing position with
  | nil => exact .inl rfl
  | cons c text inductionHypothesis =>
      exact .inr ((position.before_after c).trans_atOrBefore (inductionHypothesis _))

theorem before_past (position : Position) {text : List Char} (filled : text ≠ []) :
    position.Before (position.past text) := by
  cases text with
  | nil => exact absurd rfl filled
  | cons c text => exact (position.before_after c).trans_atOrBefore ((position.after c).atOrBefore_past text)

end Position

def writtenPlaces (tokens : List Token) : List Position :=
  (tokens.filter fun token => token.kind.isWritten).map Token.position

@[simp] theorem writtenPlaces_append (front tokens : List Token) :
    writtenPlaces (front ++ tokens) = writtenPlaces front ++ writtenPlaces tokens := by
  simp [writtenPlaces]

theorem writtenPlaces_of_unwritten {tokens : List Token}
    (unwritten : ∀ token ∈ tokens, token.kind.isWritten = false) : writtenPlaces tokens = [] := by
  have none_kept : tokens.filter (fun token => token.kind.isWritten) = [] := by
    simpa using unwritten
  rw [writtenPlaces, none_kept]
  rfl

/-- A step leaves no written token, or one that it starts at and passes over. -/
theorem Step.places {position : Position} {rest passed : List Char} {mode next : Mode}
    {tokens : List Token} (step : Step position rest mode passed tokens next) :
    writtenPlaces tokens = [] ∨ writtenPlaces tokens = [position] ∧ passed ≠ [] := by
  cases step with
  | indent _ _ measured =>
      exact .inl (writtenPlaces_of_unwritten fun token member =>
        (LineState.indentTo_unwritten measured token member).2)
  | @lineEnd state _ =>
      exact .inl (writtenPlaces_of_unwritten fun token member =>
        (state.lineEnd_unwritten position token member).2)
  | lexeme fronts _ =>
      refine .inr ⟨?_, fronts.written_ne_nil⟩
      simp [writtenPlaces, fronts.isWritten]
  | _ => exact .inl rfl

/-- The written tokens of a scan stand in the order of the source, and none before its start. -/
theorem Scans.places {mode finish : Mode} {position : Position} {text rest : List Char}
    {tokens : List Token} (scans : Scans mode position text rest tokens finish) :
    (writtenPlaces tokens).Pairwise Position.Before ∧
      ∀ place ∈ writtenPlaces tokens, position.AtOrBefore place := by
  induction scans with
  | done => exact ⟨.nil, nofun⟩
  | @next _ _ _ position passed text rest front tokens step _ inductionHypothesis =>
      obtain ⟨ordered, least⟩ := inductionHypothesis
      rw [writtenPlaces_append]
      rcases step.places with unwritten | ⟨here, filled⟩
      · rw [unwritten]
        exact ⟨ordered, fun place member =>
          (position.atOrBefore_past passed).trans (least place member)⟩
      · have below : ∀ place ∈ writtenPlaces tokens, position.Before place := fun place member =>
          (position.before_past filled).trans_atOrBefore (least place member)
        rw [here]
        refine ⟨List.pairwise_cons.mpr ⟨below, ordered⟩, fun place member => ?_⟩
        rcases List.mem_cons.mp member with rfl | member
        · exact .inl rfl
        · exact .inr (below place member)

theorem Completes.places {mode : Mode} {position : Position} {text : List Char}
    {tokens : List Token} (completes : Completes mode position text tokens) :
    (writtenPlaces tokens).Pairwise Position.Before := by
  cases completes with
  | @intro front last finish scans ended =>
      have unwritten : writtenPlaces last = [] := writtenPlaces_of_unwritten fun token member =>
        (LineState.finish_unwritten ended token member).2
      rw [writtenPlaces_append, unwritten, List.append_nil]
      exact scans.places.1

structure StreamForm (tokens : List Token) : Prop where
  ended : ∃ front last, tokens = front ++ [last] ∧ last.kind = .endOfInput ∧
    ∀ token ∈ front, token.kind ≠ .endOfInput
  indents : ∀ front, front <+: tokens →
    countKinds TokenKind.isDedent front ≤ countKinds TokenKind.isIndent front
  brackets : ∀ front, front <+: tokens →
    countKinds TokenKind.closes front ≤ countKinds TokenKind.opens front
  closed : countKinds TokenKind.isDedent tokens = countKinds TokenKind.isIndent tokens ∧
    countKinds TokenKind.closes tokens = countKinds TokenKind.opens tokens
  /-- Layout stands where no bracket is open. -/
  outside : ∀ front token behind, tokens = front ++ token :: behind → token.kind.isLayout = true →
    countKinds TokenKind.closes front = countKinds TokenKind.opens front
  /-- The line that ends has a token. -/
  filled : ∀ front token behind, tokens = front ++ token :: behind → token.kind = .newline →
    ∃ earlier previous, front = earlier ++ [previous] ∧ previous.kind.isLayout = false
  descending : tokens.Pairwise fun earlier later => earlier.position.line ≤ later.position.line
  ordered : (writtenPlaces tokens).Pairwise Position.Before
  below : tokens.Pairwise fun earlier later => earlier.kind = .newline →
    later.kind.isWritten = true → earlier.position.line < later.position.line

/-- What is read at the front of tokens that may stand in a row may stand there. -/
theorem nestingAfter?_front {nesting after : Nesting} {front tokens : List Token}
    (found : nestingAfter? nesting (front ++ tokens) = some after) :
    ∃ middle, nestingAfter? nesting front = some middle ∧ nestingAfter? middle tokens = some after := by
  rw [nestingAfter?_append] at found
  exact Option.bind_eq_some_iff.mp found

theorem not_endOfInput_of_nestingAfter? {nesting after : Nesting} {tokens : List Token}
    (found : nestingAfter? nesting tokens = some after) :
    ∀ token ∈ tokens, token.kind ≠ .endOfInput := by
  intro token member same
  obtain ⟨front, behind, rfl⟩ := List.append_of_mem member
  obtain ⟨middle, -, found⟩ := nestingAfter?_front found
  rw [nestingAfter?_cons, same] at found
  cases found

theorem counts_of_outside {tokens : List Token} {after : Nesting}
    (found : nestingAfter? .outside tokens = some after) :
    after.indents + countKinds TokenKind.isDedent tokens = countKinds TokenKind.isIndent tokens ∧
      after.depth + countKinds TokenKind.closes tokens = countKinds TokenKind.opens tokens := by
  simpa [Nesting.outside] using nestingAfter?_counts found

theorem prefix_cases {front tokens : List Token} {last : Token} {after : Nesting}
    (closes : nestingAfter? .outside tokens = some after) (leads : front <+: tokens ++ [last]) :
    front = tokens ++ [last] ∨ ∃ middle, nestingAfter? .outside front = some middle := by
  rcases List.prefix_concat_iff.mp leads with whole | ⟨behind, rfl⟩
  · exact .inl whole
  · obtain ⟨middle, found, -⟩ := nestingAfter?_front closes
    exact .inr ⟨middle, found⟩

theorem nesting_at {front behind tokens : List Token} {token last : Token} {after : Nesting}
    (closes : nestingAfter? .outside tokens = some after)
    (split : tokens ++ [last] = front ++ token :: behind) (other : token.kind ≠ last.kind) :
    ∃ before middle, nestingAfter? .outside front = some before ∧
      token.kind.nestingAfter? before = some middle := by
  have leads : front ++ [token] <+: tokens ++ [last] := ⟨behind, by simp [split]⟩
  rcases prefix_cases closes leads with whole | ⟨middle, found⟩
  · have same : [token] = [last] := List.append_inj_right' whole rfl
    cases same
    exact absurd rfl other
  · obtain ⟨before, found, read⟩ := nestingAfter?_front found
    exact ⟨before, middle, found, by simpa using read⟩

/-- The tokens of an accepted source have the form that the parser relies on. -/
theorem tokenize_streamForm {source : String} {tokens : List Token}
    (accepted : tokenize source = .ok tokens) : StreamForm tokens := by
  have completes := completes_of_scan accepted
  obtain ⟨front, last, rfl, ends, closes⟩ := completes.nesting Mode.initial_fits
  obtain ⟨indents, brackets⟩ := counts_of_outside closes
  have closed :
      countKinds TokenKind.isDedent (front ++ [last]) =
          countKinds TokenKind.isIndent (front ++ [last]) ∧
        countKinds TokenKind.closes (front ++ [last]) =
          countKinds TokenKind.opens (front ++ [last]) := by
    simp only [countKinds_append, countKinds_cons, countKinds_nil, ends]
    exact ⟨(Nat.zero_add _).symm.trans indents, (Nat.zero_add _).symm.trans brackets⟩
  exact {
    ended := ⟨front, last, rfl, ends, not_endOfInput_of_nestingAfter? closes⟩
    closed := closed
    indents := by
      intro start leads
      rcases prefix_cases closes leads with rfl | ⟨middle, found⟩
      · exact closed.1.le
      · exact (counts_of_outside found).1 ▸ Nat.le_add_left _ _
    brackets := by
      intro start leads
      rcases prefix_cases closes leads with rfl | ⟨middle, found⟩
      · exact closed.2.le
      · exact (counts_of_outside found).2 ▸ Nat.le_add_left _ _
    outside := by
      intro start token behind split layout
      have other : token.kind ≠ last.kind := by
        intro same
        rw [same, ends] at layout
        cases layout
      obtain ⟨before, middle, found, read⟩ := nesting_at closes split other
      have counts := (counts_of_outside found).2
      rwa [TokenKind.flat_of_layout layout read, Nat.zero_add] at counts
    filled := by
      intro start token behind split newline
      have other : token.kind ≠ last.kind := by
        rw [newline, ends]
        nofun
      obtain ⟨before, middle, found, read⟩ := nesting_at closes split other
      obtain ⟨earlier, previous, rfl, written⟩ :=
        written_of_filled found rfl (TokenKind.filled_of_newline (newline ▸ read))
      exact ⟨earlier, previous, rfl, TokenKind.isWritten_not_layout written⟩
    descending := (scan_stands accepted).ordered
    ordered := completes.places
    below := (scan_precedes accepted).imp fun precedes newline written => by
      have later := precedes written
      rw [newline] at later
      exact later }

theorem streamForm_of_indented_bracket :
    ∃ tokens, tokenize "if a:\n  (b)\n" = .ok tokens ∧ tokens.length = 11 ∧ StreamForm tokens := by
  have accepted : tokenize "if a:\n  (b)\n" = .ok
      [⟨.keyword .ifWord, ⟨1, 0⟩⟩, ⟨.name "a", ⟨1, 3⟩⟩, ⟨.symbol .colon, ⟨1, 4⟩⟩, ⟨.newline, ⟨1, 5⟩⟩,
        ⟨.indent, ⟨2, 0⟩⟩, ⟨.symbol .leftParen, ⟨2, 2⟩⟩, ⟨.name "b", ⟨2, 3⟩⟩,
        ⟨.symbol .rightParen, ⟨2, 4⟩⟩, ⟨.newline, ⟨2, 5⟩⟩, ⟨.dedent, ⟨3, 0⟩⟩, ⟨.endOfInput, ⟨3, 0⟩⟩] := by
    cbv
  exact ⟨_, accepted, rfl, tokenize_streamForm accepted⟩

end Stepwise.Script
