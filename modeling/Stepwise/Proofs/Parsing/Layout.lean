import Stepwise.Proofs.Scanning

/-!
Where tokens stand relative to the ends of lines.

What is written behind the end of a logical line stands on a later line, and nothing is written behind
the end of the input.
-/

namespace Stepwise.Script

/-- What a written token may stand behind: the end of a line only if it is on a later one, and never the
end of the input. -/
def Token.Precedes (earlier later : Token) : Prop :=
  later.kind.isWritten = true →
    match earlier.kind with
    | .newline => earlier.position.line < later.position.line
    | .endOfInput => False
    | _ => True

theorem Token.precedes_unwritten {earlier later : Token} (unwritten : later.kind.isWritten = false) :
    earlier.Precedes later := by
  intro written
  rw [unwritten] at written
  cases written

theorem Token.precedes_of_written {earlier later : Token} (written : earlier.kind.isWritten = true) :
    earlier.Precedes later := by
  intro _
  obtain ⟨kind, position⟩ := earlier
  cases kind <;> trivial

theorem ok_of_ite_ok {ε α : Type} {condition : Prop} [Decidable condition] {first second : Except ε α}
    {answer : α} (chosen : (if condition then first else second) = .ok answer) :
    first = .ok answer ∨ second = .ok answer := by
  by_cases holds : condition
  · rw [if_pos holds] at chosen
    exact .inl chosen
  · rw [if_neg holds] at chosen
    exact .inr chosen

namespace Lexeme

section

variable {P : TokenKind → Prop} {text : List Char} {lexeme : Lexeme}

theorem readBased_kind (int : ∀ value, P (.int value)) {base : Nat}
    (read : readBased base text = .ok lexeme) : P lexeme.kind := by
  unfold readBased at read
  simp only at read
  split at read
  · cases read
    exact int _
  · cases read

theorem readDecimal_kind (int : ∀ value, P (.int value)) (float : ∀ value, P (.float value))
    (read : readDecimal text = .ok lexeme) : P lexeme.kind := by
  unfold readDecimal at read
  rcases ok_of_ite_ok read with read | read
  · cases read
  · rcases ok_of_ite_ok read with read | read
    · split at read
      · cases read
        exact float _
      · cases read
    · split at read
      · cases read
        exact int _
      · cases read

theorem readNumber_kind (int : ∀ value, P (.int value)) (float : ∀ value, P (.float value))
    (read : readNumber text = .ok lexeme) : P lexeme.kind := by
  unfold readNumber at read
  split at read
  · split at read
    · exact readBased_kind int read
    · exact readDecimal_kind int float read
  · exact readDecimal_kind int float read

theorem readWord_kind (word : ∀ word, P (ofWord word)) (read : readWord text = .ok lexeme) :
    P lexeme.kind := by
  unfold readWord at read
  rcases ok_of_ite_ok read with read | read
  · cases read
  · cases read
    exact word _

theorem readString_kind (string : ∀ content, P (.str content)) {quote : Char}
    (read : readString quote text = .ok lexeme) : P lexeme.kind := by
  unfold readString at read
  simp only at read
  split at read
  · cases read
    exact string _
  · cases read

/-- The kinds of lexemes; only what starts with a quote is a string. -/
theorem read_kind {c : Char} (int : ∀ value, P (.int value)) (float : ∀ value, P (.float value))
    (word : ∀ word, P (ofWord word)) (symbol : ∀ sign, P (.symbol sign))
    (string : (c == '\'' || c == '"') = true → ∀ content, P (.str content))
    (found : read c text = .ok lexeme) : P lexeme.kind := by
  unfold read at found
  rcases ok_of_ite_ok found with found | found
  · exact readNumber_kind int float found
  · rcases ok_of_ite_ok found with found | found
    · exact readWord_kind word found
    · split at found
      · rename_i quoted
        exact readString_kind (string quoted) found
      · split at found
        · cases found
          exact symbol _
        · cases found

end

theorem ofWord_isWritten (word : String) : (ofWord word).isWritten = true := by
  unfold ofWord
  split
  · rfl
  · split <;> rfl

theorem read_isWritten {c : Char} {rest : List Char} {lexeme : Lexeme}
    (found : read c rest = .ok lexeme) : lexeme.kind.isWritten = true := by
  refine read_kind (P := fun kind => kind.isWritten = true) ?_ ?_ ofWord_isWritten ?_ ?_ found
  all_goals intros; rfl

end Lexeme

/-- Tokens at the front of others that stand on later lines than any line that ends there. -/
theorem precedes_append {front tokens : List Token} (inside : front.Pairwise Token.Precedes)
    (behind : tokens.Pairwise Token.Precedes)
    (across : ∀ earlier ∈ front, ∀ later ∈ tokens, earlier.Precedes later) :
    (front ++ tokens).Pairwise Token.Precedes :=
  List.pairwise_append.mpr ⟨inside, behind, across⟩

theorem precedes_of_unwritten {tokens : List Token}
    (unwritten : ∀ token ∈ tokens, token.kind.isWritten = false) :
    tokens.Pairwise Token.Precedes :=
  List.pairwise_of_forall_mem_list fun _ _ later member =>
    Token.precedes_unwritten (unwritten later member)

theorem LineState.finish_precedes {state : LineState} {position : Position} {tokens : List Token}
    (ended : state.finish position = .ok tokens) : tokens.Pairwise Token.Precedes :=
  precedes_of_unwritten fun token member => (finish_unwritten ended token member).2

theorem LineState.indentTo_precedes {state after : LineState} {width line : Nat}
    {tokens : List Token} (ended : state.indentTo width line = .ok (tokens, after)) :
    ∀ earlier ∈ tokens, ∀ later : Token, earlier.Precedes later := by
  unfold indentTo at ended
  simp only at ended
  split at ended
  · cases ended
    intro earlier member later
    rw [List.mem_singleton.mp member]
    exact fun _ => trivial
  · split at ended
    · cases ended
      intro earlier member later
      obtain ⟨_, _, rfl⟩ := List.mem_map.mp member
      exact fun _ => trivial
    · cases ended

theorem scan_precedes {state : LineState} {fresh : Bool} {position : Position} {text : List Char}
    {tokens : List Token} (ended : scan state fresh position text = .ok tokens) :
    tokens.Pairwise Token.Precedes := by
  fun_induction scan state fresh position text generalizing tokens
  -- at the front of a line
  case case1 => exact LineState.finish_precedes ended
  case case2 inductionHypothesis => exact inductionHypothesis ended
  case case3 inductionHypothesis => exact inductionHypothesis ended
  case case4 inductionHypothesis =>
      obtain ⟨⟨front, after⟩, indented, ended⟩ := ok_of_bind_ok ended
      obtain ⟨others, scanned, ended⟩ := ok_of_bind_ok ended
      cases ended
      have free := LineState.indentTo_precedes indented
      refine precedes_append ?_ (inductionHypothesis after scanned) fun earlier member later _ =>
        free earlier member later
      exact List.pairwise_of_forall_mem_list fun earlier member later _ => free earlier member later
  -- inside a line
  case case5 => exact LineState.finish_precedes ended
  case case6 inductionHypothesis => exact inductionHypothesis ended
  case case7 inductionHypothesis => exact inductionHypothesis ended
  case case8 inductionHypothesis => exact inductionHypothesis ended
  case case9 => cases ended
  case case10 state fresh position _ c rest _ _ _ feed _ inductionHypothesis =>
      obtain ⟨others, scanned, ended⟩ := ok_of_bind_ok ended
      cases ended
      have unwritten := state.lineEnd_unwritten position
      refine precedes_append (precedes_of_unwritten fun token member => (unwritten token member).2)
        (inductionHypothesis scanned) fun earlier memberEarlier later memberLater _ => ?_
      -- what comes next starts below the line feed
      have below := (scan_stands scanned).least later memberLater
      have here := (unwritten earlier memberEarlier).1
      rw [position.after_line, beq_iff_eq.mp feed, List.count_singleton_self] at below
      unfold LineState.lineEnd at memberEarlier
      split at memberEarlier
      · rw [List.mem_singleton.mp memberEarlier]
        exact below
      · cases memberEarlier
  case case11 inductionHypothesis => exact inductionHypothesis ended
  case case12 => cases ended
  case case13 lexeme read inductionHypothesis =>
      obtain ⟨after, -, ended⟩ := ok_of_bind_ok ended
      obtain ⟨others, scanned, ended⟩ := ok_of_bind_ok ended
      cases ended
      have written := Lexeme.read_isWritten read
      exact List.pairwise_cons.mpr
        ⟨fun later _ => Token.precedes_of_written written, inductionHypothesis after scanned⟩

end Stepwise.Script
