import Stepwise.Proofs.Writing.Displays

/-!
How calls, attributes and subscripts are read from the tokens of their parts.
-/

namespace Stepwise.Script

open Stepwise.Script.Parser
/-- The tokens of arguments, of which all are named if one before them is. -/
inductive ReadsArguments : Bool → List TokenKind → List Argument → Prop where
  | nil {named : Bool} : ReadsArguments named [] []
  | positional {tokens others : List TokenKind} {value : Expr} {rest : List Argument} :
      Level.conditional.Reads tokens value → ReadsArguments false others rest →
      ReadsArguments false (tokens ++ (separator rest ++ others)) (.positional value :: rest)
  | keyword {named : Bool} {tokens others : List TokenKind} {name : String} {value : Expr}
      {rest : List Argument} :
      Level.conditional.Reads tokens value → ReadsArguments true others rest →
      ReadsArguments named
        (.name name :: .symbol .assign :: (tokens ++ (separator rest ++ others)))
        (.keyword name value :: rest)

theorem expressionAt_name {depth : Nat} {start finish : Cursor} {name : String} {expr : Expr}
    (read : (expressionAt depth .conditional).Answers start expr finish) (enough : 28 ≤ depth)
    (isName : start.kind = .name name) (assigns : start.next.kind = .symbol .assign) :
    finish = start.next := by
  have resumes : Level.atom.Resumes [.name name] (.name name) := Level.resumes_literal rfl
  have reads := (Level.Resumes.reads resumes).mono (Level.height_le_conditional _)
  have alone := reads depth start start.next ⟨isName, rfl⟩ (by rw [assigns]; rfl)
    (by simp only [List.length_cons, List.length_nil, Level.height]; omega)
  exact (read.unique alone).2

namespace ReadsArguments

variable {named : Bool} {tokens : List TokenKind} {rest : List Argument}

theorem empty (reads : ReadsArguments named tokens rest) (none_left : rest = []) :
    tokens = [] := by
  cases reads with
  | nil => rfl
  | positional => cases none_left
  | keyword => cases none_left

theorem answers (reads : ReadsArguments named tokens rest) (depth fuel : Nat)
    {start finish : Cursor} (shown : start.Shows tokens finish)
    (closed : finish.kind = .symbol .rightParen) (enough : 16 * tokens.length + 28 ≤ depth)
    (room : tokens.length + 1 ≤ fuel) :
    (arguments (expressionAt depth) fuel named).Answers start rest finish.next := by
  induction reads generalizing start fuel with
  | nil =>
      cases shown
      obtain ⟨fuel, rfl⟩ : ∃ inner, fuel = inner + 1 := ⟨fuel - 1, by omega⟩
      simp only [arguments, Answers.eat_found closed, if_true, Answers.pure_iff, and_self]
  | @positional tokens others value rest readValue readRest inductionHypothesis =>
      obtain ⟨middle, shownValue, shownRest⟩ := Cursor.shows_append.mp shown
      simp only [List.length_append] at enough room
      obtain ⟨fuel, rfl⟩ : ∃ inner, fuel = inner + 1 := ⟨fuel - 1, by omega⟩
      have stops := Cursor.stops_of_separator rfl readRest.empty shownRest closed
      have value := readValue depth start middle shownValue stops
        (by simp only [Level.height]; omega)
      have starts := expressionAt_starts value
      have inside := TokenKind.isSymbol_of_starts .rightParen starts rfl
      have single := TokenKind.isSymbol_of_starts .star starts rfl
      have double := TokenKind.isSymbol_of_starts .doubleStar starts rfl
      simp only [arguments, Answers.eat_absent inside, Answers.get_bind, single, double, Bool.or_self,
        Bool.false_eq_true, if_false]
      split
      · -- a name before an equals sign is not the whole value
        rename_i name isName assigns
        rw [Cursor.secondKind_eq] at assigns
        obtain rfl := expressionAt_name value (by omega) isName assigns
        rcases Cursor.shows_separator readRest.empty shownRest with ⟨-, rfl⟩ | ⟨-, comma, -⟩
        · rw [assigns] at closed
          cases closed
        · rw [assigns] at comma
          cases comma
      · have plain : middle.kind.isKeyword .forWord = false := by
          rcases Cursor.shows_separator readRest.empty shownRest with ⟨-, rfl⟩ | ⟨-, comma, -⟩
          · rw [closed]
            rfl
          · rw [comma]
            rfl
        simp only [Answers.bind_iff value, Answers.atWord?_bind, plain, Bool.false_eq_true, if_false]
        apply separated_answers rfl readRest.empty shownRest closed
        intro sole shownRest
        exact inductionHypothesis fuel shownRest (by omega) (by omega)
  | @keyword named tokens others name value rest readValue readRest inductionHypothesis =>
      obtain ⟨isName, assigns, shown⟩ := shown
      obtain ⟨middle, shownValue, shownRest⟩ := Cursor.shows_append.mp shown
      simp only [List.length_append, List.length_cons] at enough room
      obtain ⟨fuel, rfl⟩ : ∃ inner, fuel = inner + 1 := ⟨fuel - 1, by omega⟩
      have value := readValue depth start.next.next middle shownValue
        (Cursor.stops_of_separator rfl readRest.empty shownRest closed)
        (by simp only [Level.height]; omega)
      rw [← Cursor.secondKind_eq] at assigns
      have inside : start.kind.isSymbol .rightParen = false := by rw [isName]; rfl
      simp only [arguments, Answers.eat_absent inside, Answers.get_bind, isName, assigns,
        TokenKind.isSymbol, Bool.or_self, Bool.false_eq_true, if_false, Answers.advance_bind,
        Answers.bind_iff value]
      apply separated_answers rfl readRest.empty shownRest closed
      intro sole shownRest
      exact inductionHypothesis fuel shownRest (by omega) (by omega)

end ReadsArguments

/-- Whether an attribute ends before a token: a bracket behind its name makes a method call. -/
def attributeEnds (kind : TokenKind) : Bool :=
  Level.atom.stops kind && !kind.isSymbol .leftParen

namespace Level

variable {tokens others : List TokenKind} {object : Expr}

/-- The loop over trailers goes on with what stands behind an object. -/
theorem ResumesBefore.trailer {result : Expr} {follows ends : TokenKind → Bool}
    (readObject : Level.trailer.ResumesBefore follows tokens object)
    (opens : ∀ start middle : Cursor, start.Shows others middle → follows start.kind = true)
    (filled : 1 ≤ others.length)
    (form : ∀ depth fuel start middle answer finish, start.Shows others middle →
      ends middle.kind = true → 16 * others.length + 2 ≤ depth → others.length ≤ fuel + 1 →
      (trailers (expressionAt depth) fuel result).Answers middle answer finish →
      (trailers (expressionAt depth) (fuel + 1) object).Answers start answer finish) :
    Level.trailer.ResumesBefore ends (tokens ++ others) result := by
  intro depth least start middle answer finish shown stops enough room rest
  obtain ⟨link, shownObject, shownBehind⟩ := Cursor.shows_append.mp shown
  simp only [List.length_append, height] at enough room
  refine readObject depth (least + others.length) start link answer finish shownObject
    (opens link middle shownBehind) (by simp only [height]; omega) (by omega) ?_
  intro fuel least_le
  obtain ⟨fuel, rfl⟩ : ∃ inner, fuel = inner + 1 := ⟨fuel - 1, by omega⟩
  exact form depth fuel link middle answer finish shownBehind stops (by omega) (by omega)
    (rest fuel (by omega))

theorem resumes_attribute (readObject : Level.trailer.ResumesBefore attributeEnds tokens object)
    (name : String) :
    Level.trailer.ResumesBefore attributeEnds (tokens ++ [.symbol .dot, .name name])
      (.attribute object name) := by
  refine readObject.trailer ?_ (by simp) ?_
  · rintro start middle ⟨point, -⟩
    rw [point]
    rfl
  · rintro depth fuel start middle answer finish ⟨point, isName, rfl⟩ ends enough room rest
    simp only [attributeEnds, Bool.and_eq_true, Bool.not_eq_true'] at ends
    have uncalled : start.kind.isSymbol .leftParen = false := by rw [point]; rfl
    have whole : start.kind.isSymbol .leftBracket = false := by rw [point]; rfl
    simp only [trailers, Answers.eat_absent uncalled, Answers.eat_absent whole,
      Answers.eat_found point, Answers.expectName_bind isName, Answers.eat_absent ends.2,
      Bool.false_eq_true, if_false, if_true]
    exact rest

theorem resumes_method {arguments : List Argument}
    (readObject : Level.trailer.ResumesBefore attributeEnds tokens object) (name : String)
    (readArguments : ReadsArguments false others arguments) :
    Level.trailer.Resumes
      (tokens ++ .symbol .dot :: .name name ::
        .symbol .leftParen :: (others ++ [.symbol .rightParen]))
      (.method object name arguments) := by
  refine readObject.trailer ?_ (by simp) ?_
  · rintro start middle ⟨point, -⟩
    rw [point]
    rfl
  · rintro depth fuel start middle answer finish ⟨point, isName, opened, shown⟩ - enough room rest
    obtain ⟨atEnd, inside, closed, rfl⟩ := Cursor.shows_append.mp shown
    simp only [List.length_append, List.length_cons, List.length_nil] at enough room
    have read := readArguments.answers depth fuel inside closed (by omega) (by omega)
    have uncalled : start.kind.isSymbol .leftParen = false := by rw [point]; rfl
    have whole : start.kind.isSymbol .leftBracket = false := by rw [point]; rfl
    simp only [trailers, Answers.eat_absent uncalled, Answers.eat_absent whole,
      Answers.eat_found point, Answers.expectName_bind isName, Answers.eat_found opened,
      Bool.false_eq_true, if_false, if_true, Answers.bind_iff read]
    exact rest

theorem resumes_call {arguments : List Argument} (readFunction : Level.trailer.Resumes tokens object)
    (readArguments : ReadsArguments false others arguments) :
    Level.trailer.Resumes (tokens ++ .symbol .leftParen :: (others ++ [.symbol .rightParen]))
      (.call object arguments) := by
  refine readFunction.trailer ?_ (by simp) ?_
  · rintro start middle ⟨opened, -⟩
    rw [opened]
    rfl
  · rintro depth fuel start middle answer finish ⟨opened, shown⟩ - enough room rest
    obtain ⟨atEnd, inside, closed, rfl⟩ := Cursor.shows_append.mp shown
    simp only [List.length_append, List.length_cons, List.length_nil] at enough room
    have read := readArguments.answers depth fuel inside closed (by omega) (by omega)
    simp only [trailers, Answers.eat_found opened, if_true, Answers.bind_iff read]
    exact rest

theorem resumes_subscript {result : Expr}
    (readObject : Level.trailer.ResumesBefore attributeEnds tokens object)
    (form : ∀ depth fuel start middle, start.Shows others middle →
      middle.kind = .symbol .rightBracket → 16 * others.length + 28 ≤ depth →
      (subscript fuel (expressionAt depth) object).Answers start result middle.next) :
    Level.trailer.Resumes (tokens ++ .symbol .leftBracket :: (others ++ [.symbol .rightBracket]))
      result := by
  refine readObject.trailer ?_ (by simp) ?_
  · rintro start middle ⟨opened, -⟩
    rw [opened]
    rfl
  · rintro depth fuel start middle answer finish ⟨opened, shown⟩ - enough room rest
    obtain ⟨atEnd, inside, closed, rfl⟩ := Cursor.shows_append.mp shown
    simp only [List.length_append, List.length_cons, List.length_nil] at enough room
    have read := form depth fuel start.next atEnd inside closed (by omega)
    have uncalled : start.kind.isSymbol .leftParen = false := by rw [opened]; rfl
    simp only [trailers, Answers.eat_absent uncalled, Answers.eat_found opened, Bool.false_eq_true,
      if_false, if_true, Answers.bind_iff read]
    exact rest

theorem resumes_index {index : Expr}
    (readObject : Level.trailer.ResumesBefore attributeEnds tokens object)
    (readIndex : Level.conditional.Reads others index) :
    Level.trailer.Resumes (tokens ++ .symbol .leftBracket :: (others ++ [.symbol .rightBracket]))
      (.index object index) := by
  refine resumes_subscript readObject ?_
  intro depth fuel start middle shown closed enough
  have read := readIndex depth start middle shown (by rw [closed]; rfl)
    (by simp only [height]; omega)
  have inside := TokenKind.isSymbol_of_starts .colon (expressionAt_starts read) rfl
  have whole : middle.kind.isSymbol .colon = false := by rw [closed]; rfl
  have alone : middle.kind.isSymbol .comma = false := by rw [closed]; rfl
  simp only [subscript, Answers.at?_bind, inside, Bool.false_eq_true, if_false,
    Answers.bind_iff read.map, Answers.eat_absent whole, alone, Answers.pure_bind,
    Answers.expect_bind closed, Answers.pure_iff, and_self]

end Level

inductive ReadsBound : List TokenKind → Option Expr → Prop where
  | absent : ReadsBound [] none
  | present {tokens : List TokenKind} {bound : Expr} :
      Level.conditional.Reads tokens bound → ReadsBound tokens (some bound)

inductive ReadsStep : List TokenKind → Option Expr → Prop where
  | absent : ReadsStep [] none
  | present {tokens : List TokenKind} {step : Expr} :
      Level.conditional.Reads tokens step → ReadsStep (.symbol .colon :: tokens) (some step)

section Bounds

variable {β : Type} {tokens : List TokenKind} {bound step : Option Expr} {depth : Nat}
  {start middle finish : Cursor} {next : Option Expr → Parser β} {answer : β}

/-- A bound is read unless the token before which it may be absent stands there. -/
theorem ReadsBound.bind (reads : ReadsBound tokens bound) (test : TokenKind → Bool)
    (shown : start.Shows tokens middle) (absent : test middle.kind = true)
    (ends : Level.conditional.stops middle.kind = true)
    (present : ∀ kind : TokenKind, kind.starts .conditional = true → test kind = false)
    (enough : 16 * tokens.length + 12 ≤ depth) :
    (if test start.kind = true then pure none >>= next
      else some <$> expressionAt depth .conditional >>= next).Answers start answer finish ↔
      (next bound).Answers middle answer finish := by
  cases reads with
  | absent =>
      obtain rfl : start = middle := shown
      rw [if_pos absent, Answers.pure_bind]
  | present readBound =>
      have read := readBound depth start middle shown ends (by simp only [Level.height]; omega)
      rw [if_neg (by simp [present _ (expressionAt_starts read)]), Answers.bind_iff read.map]

theorem ReadsStep.bind (reads : ReadsStep tokens step) (shown : start.Shows tokens middle)
    (closed : middle.kind = .symbol .rightBracket) (enough : 16 * tokens.length + 12 ≤ depth) :
    (do
      let step ←
        if ← eat .colon then
          if ← at? .rightBracket then pure Option.none
          else .some <$> expressionAt depth .conditional
        else pure Option.none
      next step : Parser β).Answers start answer finish ↔
      (next step).Answers middle answer finish := by
  cases reads with
  | absent =>
      obtain rfl : start = middle := shown
      have ended : start.kind.isSymbol .colon = false := by rw [closed]; rfl
      simp only [Answers.eat_absent ended, Bool.false_eq_true, if_false, Answers.pure_bind]
  | @present tokens value readStep =>
      obtain ⟨colon, shown⟩ := shown
      simp only [List.length_cons] at enough
      have read := readStep depth start.next middle shown (by rw [closed]; rfl)
        (by simp only [Level.height]; omega)
      have inside := TokenKind.isSymbol_of_starts .rightBracket
        (expressionAt_starts read) rfl
      simp only [Answers.eat_found colon, if_true, Answers.at?_bind, inside, Bool.false_eq_true,
        if_false, Answers.bind_iff read.map]

end Bounds

theorem Level.resumes_slice {tokens lowerTokens upperTokens stepTokens : List TokenKind}
    {object : Expr} {lower upper step : Option Expr}
    (readObject : Level.trailer.ResumesBefore attributeEnds tokens object)
    (readLower : ReadsBound lowerTokens lower) (readUpper : ReadsBound upperTokens upper)
    (readStep : ReadsStep stepTokens step) :
    Level.trailer.Resumes
      (tokens ++ .symbol .leftBracket ::
        (lowerTokens ++ .symbol .colon :: (upperTokens ++ stepTokens) ++ [.symbol .rightBracket]))
      (.slice object lower upper step) := by
  refine resumes_subscript readObject ?_
  intro depth fuel start middle shown closed enough
  obtain ⟨atColon, shownLower, colon, shown⟩ := Cursor.shows_append.mp shown
  obtain ⟨atStep, shownUpper, shownStep⟩ := Cursor.shows_append.mp shown
  simp only [List.length_append, List.length_cons] at enough
  have atEnd : (atStep.kind.isSymbol .colon || atStep.kind.isSymbol .rightBracket) = true ∧
      Level.conditional.stops atStep.kind = true := by
    cases readStep with
    | absent =>
        obtain rfl : atStep = middle := shownStep
        rw [closed]
        exact ⟨rfl, rfl⟩
    | present =>
        rw [shownStep.kind]
        exact ⟨rfl, rfl⟩
  simp only [subscript, Answers.at?_bind]
  refine (readLower.bind (·.isSymbol .colon) shownLower (by rw [colon]; rfl)
    (by rw [colon]; rfl) (fun kind starts => TokenKind.isSymbol_of_starts _ starts rfl)
    (by omega)).mpr ?_
  simp only [Answers.eat_found colon, if_true, Answers.at?_bind]
  refine (readUpper.bind (fun kind => kind.isSymbol .colon || kind.isSymbol .rightBracket)
    shownUpper atEnd.1 atEnd.2 (fun kind starts => ?_) (by omega)).mpr ?_
  · rw [TokenKind.isSymbol_of_starts .colon starts rfl,
      TokenKind.isSymbol_of_starts _ starts rfl, Bool.or_self]
  · refine (readStep.bind shownStep closed (by omega)).mpr ?_
    simp only [Answers.expect_bind closed, Answers.pure_iff, and_self]

end Stepwise.Script
