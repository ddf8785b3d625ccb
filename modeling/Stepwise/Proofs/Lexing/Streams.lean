import Stepwise.Proofs.Lexing.Lexemes
import Stepwise.Proofs.Scanning

/-!
Token streams that are read back from their spelling.

`Spells` says that a text is a row of lexemes with blanks between them.  The scanner reads exactly
these lexemes if no bracket closes that was not opened.
-/

namespace Stepwise.Script

/-- How many brackets are open behind a token, unless it closes one that is not open. -/
def TokenKind.depthAfter? (depth : Nat) : TokenKind → Option Nat
  | .symbol sign =>
      if sign.opens then some (depth + 1)
      else if sign.closes then
        match depth with
        | 0 => none
        | depth + 1 => some depth
      else some depth
  | _ => some depth

def depthAfter? (depth : Nat) (kinds : List TokenKind) : Option Nat :=
  kinds.foldlM TokenKind.depthAfter? depth

@[simp] theorem depthAfter?_nil (depth : Nat) : depthAfter? depth [] = some depth := rfl

@[simp] theorem depthAfter?_cons (depth : Nat) (kind : TokenKind) (kinds : List TokenKind) :
    depthAfter? depth (kind :: kinds) =
      (kind.depthAfter? depth).bind fun depth => depthAfter? depth kinds := by
  simp [depthAfter?, List.foldlM_cons]

@[simp] theorem depthAfter?_append (depth : Nat) (front kinds : List TokenKind) :
    depthAfter? depth (front ++ kinds) =
      (depthAfter? depth front).bind fun depth => depthAfter? depth kinds := by
  simp [depthAfter?, List.foldlM_append]

theorem LineState.accept_of_depthAfter? {state : LineState} {kind : TokenKind} {depth : Nat}
    (line : Nat) (after : kind.depthAfter? state.depth = some depth) :
    state.accept line kind = .ok { state with depth := depth, started := true } := by
  cases kind with
  | symbol symbol =>
      simp only [TokenKind.depthAfter?] at after
      unfold accept
      split at after
      · rename_i opens
        cases after
        simp [opens]
      · rename_i opens
        split at after
        · rename_i closes
          cases open_ : state.depth with
          | zero => simp [open_] at after
          | succ inner =>
              simp only [open_, Option.some.injEq] at after
              simp [opens, closes, after]
        · rename_i closes
          cases after
          simp [opens, closes]
  | _ =>
      cases after
      rfl

theorem LineState.depthAfter?_of_accept {state after : LineState} {line : Nat} {kind : TokenKind}
    (accepted : state.accept line kind = .ok after) :
    ∃ depth, kind.depthAfter? state.depth = some depth ∧
      after = { state with depth := depth, started := true } := by
  cases found : kind.depthAfter? state.depth with
  | some depth =>
      rw [accept_of_depthAfter? line found] at accepted
      cases accepted
      exact ⟨depth, rfl, rfl⟩
  | none =>
      cases kind with
      | symbol sign =>
          simp only [TokenKind.depthAfter?] at found
          unfold accept at accepted
          split at found
          · cases found
          · rename_i opening
            split at found
            · rename_i closing
              simp only [opening, closing] at accepted
              split at found
              · rename_i flat
                rw [flat] at accepted
                cases accepted
              · cases found
            · cases found
      | _ => cases found

/-- A text is a row of lexemes of these kinds, with blanks before any of them, up to the rest. -/
inductive Spells : List Char → List TokenKind → List Char → Prop where
  | done {rest : List Char} : Spells rest [] rest
  | blank {c : Char} {text rest : List Char} {kinds : List TokenKind} : isLineBlank c = true →
      Spells text kinds rest → Spells (c :: text) kinds rest
  | lexeme {written text rest : List Char} {kind : TokenKind} {kinds : List TokenKind} :
      '\n' ∉ written → Fronts written kind text → Spells text kinds rest →
      Spells (written ++ text) (kind :: kinds) rest

namespace Spells

variable {text middle rest : List Char} {kinds others : List TokenKind}

theorem append (front : Spells text kinds middle) (behind : Spells middle others rest) :
    Spells text (kinds ++ others) rest := by
  induction front with
  | done => exact behind
  | blank isBlank _ inductionHypothesis => exact .blank isBlank (inductionHypothesis behind)
  | lexeme visible fronts _ inductionHypothesis =>
      exact .lexeme visible fronts (inductionHypothesis behind)

theorem space (spells : Spells text kinds rest) : Spells (' ' :: text) kinds rest :=
  .blank rfl spells

end Spells

theorem Except.map_map {ε α β γ : Type} (result : Except ε α) (first : α → β) (second : β → γ) :
    (result.map first).map second = result.map fun value => second (first value) := by
  cases result <;> rfl

theorem ok_of_map_ok {ε α β : Type} {result : Except ε α} {change : α → β} {answer : β}
    (mapped : result.map change = .ok answer) : ∃ value, result = .ok value ∧ answer = change value := by
  cases result with
  | error error => cases mapped
  | ok value =>
      cases mapped
      exact ⟨value, rfl, rfl⟩

theorem scan_blank {state : LineState} {position : Position} {c : Char} {text : List Char}
    (isBlank : isLineBlank c = true) :
    scan state false position (c :: text) = scan state false (position.after c) text := by
  rw [scan]
  simp [isBlank]

/-- The scanner reads the lexeme at the front of a text and goes on behind it, unless the lexeme is a
bracket that closes none. -/
theorem scan_fronts_eq {written text : List Char} {kind : TokenKind}
    (fronts : Fronts written kind text) (state : LineState) (position : Position) :
    scan state false position (written ++ text) =
      (state.accept position.line kind >>= fun after =>
        (scan after false (position.past written) text).map (⟨kind, position⟩ :: ·)) := by
  cases fronts with
  | @intro c more _ lexeme opens read whole =>
      simp only [opensLexeme, Bool.and_eq_true, Bool.not_eq_true', bne_iff_ne, ne_eq] at opens
      obtain ⟨⟨⟨blank, comment⟩, continued⟩, ended⟩ := opens
      have front : (c :: (more ++ text)).take lexeme.length = c :: more := by simp [whole]
      have behind : (c :: (more ++ text)).drop lexeme.length = text := by simp [whole]
      rw [List.cons_append, scan]
      simp only [Bool.false_eq_true, if_false, blank, comment, continued, ended, beq_iff_eq, read,
        front, behind]
      rfl

theorem scan_fronts {state after : LineState} {position : Position} {written text : List Char}
    {kind : TokenKind} (fronts : Fronts written kind text)
    (accepted : state.accept position.line kind = .ok after) :
    scan state false position (written ++ text) =
      (scan after false (position.past written) text).map (⟨kind, position⟩ :: ·) := by
  rw [scan_fronts_eq fronts, accepted]
  rfl

/-- Within a line, a position moves along by a column for every character. -/
theorem Position.past_of_visible {text : List Char} (visible : '\n' ∉ text) (position : Position) :
    position.past text = ⟨position.line, position.column + text.length⟩ := by
  induction text generalizing position with
  | nil => rfl
  | cons c rest inductionHypothesis =>
      simp only [List.mem_cons, not_or] at visible
      have moved : position.after c = ⟨position.line, position.column + 1⟩ := by
        simp [after, Ne.symm visible.1]
      change (position.after c).past rest = _
      rw [inductionHypothesis visible.2, moved]
      simp [Nat.add_comm, Nat.add_left_comm]

theorem scan_spells {text rest : List Char} {kinds : List TokenKind}
    (spells : Spells text kinds rest) (state : LineState) (position : Position) {depth : Nat}
    (brackets : depthAfter? state.depth kinds = some depth) :
    ∃ tokens finish, tokens.map Token.kind = kinds ∧
      (∀ token ∈ tokens, token.position.line = position.line) ∧ finish.line = position.line ∧
      scan state false position text =
        (scan { state with depth := depth, started := state.started || !kinds.isEmpty } false finish
          rest).map (tokens ++ ·) := by
  induction spells generalizing state position with
  | @done rest =>
      obtain rfl : state.depth = depth := by simpa using brackets
      refine ⟨[], position, rfl, by simp, rfl, ?_⟩
      cases same : scan state false position rest <;> simp [same, Except.map]
  | @blank c text rest kinds isBlank _ inductionHypothesis =>
      obtain ⟨tokens, finish, same, lines, ends, scanned⟩ :=
        inductionHypothesis state (position.after c) brackets
      have line : (position.after c).line = position.line := by
        have visible : '\n' ∉ [c] := by
          simp only [List.mem_singleton]
          rintro rfl
          revert isBlank
          decide
        rw [show position.after c = position.past [c] from rfl, Position.past_of_visible visible]
      rw [line] at lines ends
      exact ⟨tokens, finish, same, lines, ends, by rw [scan_blank isBlank, scanned]⟩
  | @lexeme written text rest kind kinds visible fronts _ inductionHypothesis =>
      obtain ⟨inner, first, brackets⟩ := Option.bind_eq_some_iff.mp
        ((depthAfter?_cons _ _ _).symm.trans brackets)
      obtain ⟨tokens, finish, same, lines, ends, scanned⟩ :=
        inductionHypothesis { state with depth := inner, started := true }
          (position.past written) brackets
      rw [Position.past_of_visible visible] at lines ends
      refine ⟨⟨kind, position⟩ :: tokens, finish, by simp [same], by simpa using lines, ends, ?_⟩
      rw [scan_fronts fronts (LineState.accept_of_depthAfter? _ first), scanned, Except.map_map]
      simp

theorem tokenize_of_fronts {written text : List Char} {kind : TokenKind}
    (fronts : Fronts written kind text) :
    tokenize (String.ofList (written ++ text)) = scan .initial false .start (written ++ text) := by
  cases fronts with
  | @intro c more _ lexeme opens _ _ =>
      simp only [opensLexeme, Bool.and_eq_true, Bool.not_eq_true', bne_iff_ne, ne_eq] at opens
      obtain ⟨⟨⟨blank, comment⟩, -⟩, ended⟩ := opens
      unfold tokenize
      have kept : (c :: (more ++ text)).dropWhile isLineBlank = c :: (more ++ text) := by simp [blank]
      have unindented : LineState.initial.indentTo 0 1 = .ok ([], .initial) := rfl
      rw [String.toList_ofList, List.cons_append, scan]
      simp only [if_true]
      split
      · rename_i found
        simp [kept] at found
      · rename_i first others found
        rw [kept] at found
        cases found
        simp only [beq_iff_eq, comment, ended, if_false, List.takeWhile_cons, blank,
          Bool.false_eq_true]
        change (LineState.initial.indentTo 0 1 >>= _) = _
        rw [unindented]
        change (scan .initial false .start (c :: (more ++ text)) >>= fun tokens =>
          pure ([] ++ tokens)) = _
        cases scan .initial false .start (c :: (more ++ text)) <;> rfl

/-- Behind a row of lexemes, the end of the source or of its only line ends the tokens. -/
theorem scan_ends {rest : List Char} (ends : rest = [] ∨ rest = ['\n']) (position : Position) :
    ∃ tokens, scan ⟨[], 0, true⟩ false position rest = .ok tokens ∧
      tokens.map Token.kind = [.newline, .endOfInput] := by
  rcases ends with rfl | rfl
  · refine ⟨[⟨.newline, position⟩, ⟨.endOfInput, position⟩], ?_, rfl⟩
    rw [scan]
    rfl
  · refine ⟨[⟨.newline, position⟩, ⟨.endOfInput, position.after '\n'⟩], ?_, rfl⟩
    have fresh : scan ⟨[], 0, false⟩ true (position.after '\n') [] =
        .ok [⟨.endOfInput, position.after '\n'⟩] := by
      rw [scan]
      rfl
    rw [scan]
    simp only [Bool.false_eq_true, if_false]
    change (scan ⟨[], 0, false⟩ true (position.after '\n') [] >>= fun tokens =>
      pure ([⟨.newline, position⟩] ++ tokens)) = _
    rw [fresh]
    rfl

/-- A source that is a row of lexemes, with or without a line feed behind it, has their tokens and
those that end its only line. -/
theorem tokenize_spells {written text rest : List Char} {kind : TokenKind} {kinds : List TokenKind}
    (visible : '\n' ∉ written) (fronts : Fronts written kind text)
    (spells : Spells text kinds rest) (ends : rest = [] ∨ rest = ['\n'])
    (brackets : depthAfter? 0 (kind :: kinds) = some 0) :
    ∃ tokens, tokenize (String.ofList (written ++ text)) = .ok tokens ∧
      tokens.map Token.kind = kind :: kinds ++ [.newline, .endOfInput] ∧
      ∀ token ∈ tokens.head?, token.position.line = 1 := by
  obtain ⟨tokens, finish, same, lines, -, scanned⟩ :=
    scan_spells (.lexeme visible fronts spells) .initial .start brackets
  obtain ⟨last, closed, kinds_last⟩ := scan_ends ends finish
  refine ⟨tokens ++ last, ?_, by rw [List.map_append, same, kinds_last], ?_⟩
  · rw [tokenize_of_fronts fronts, scanned]
    change (scan ⟨[], 0, true⟩ false finish rest).map _ = _
    rw [closed]
    rfl
  · intro token first
    cases tokens with
    | nil => simp at same
    | cons head tokens =>
        simp only [List.cons_append, List.head?_cons, Option.mem_some_iff] at first
        exact first ▸ lines head (by simp)

end Stepwise.Script
