import Stepwise.Proofs.Writing.Operators

/-!
How literals, displays and comprehensions are read from the tokens of their parts.
-/

namespace Stepwise.Script

open Stepwise.Script.Parser
open TokenKind (isKeyword_of_test)

theorem Symbol.stops_of_closes {close : Symbol} (closes : close.closes = true) (level : Level) :
    level.stops (.symbol close) = true := by
  cases close <;> first | rfl | cases closes

theorem Symbol.starts_of_closes {close : Symbol} (closes : close.closes = true) (level : Level) :
    (TokenKind.symbol close).starts level = false := by
  cases close <;> first | rfl | cases closes

theorem Cursor.shows_separator {α : Type} {rest : List α} {tokens : List TokenKind}
    {start finish : Cursor} (empty : rest = [] → tokens = [])
    (shown : start.Shows (separator rest ++ tokens) finish) :
    (rest = [] ∧ start = finish) ∨
      (rest ≠ [] ∧ start.kind = .symbol .comma ∧ start.next.Shows tokens finish) := by
  cases rest with
  | nil =>
      rw [empty rfl] at shown
      exact .inl ⟨rfl, shown⟩
  | cons item rest => exact .inr ⟨by simp, shown⟩

/-- Behind an item, its reader goes on at a comma and stops at the closing bracket. -/
theorem Parser.separated_answers {α : Type} {item : α} {rest : List α} {tokens : List TokenKind}
    {more : Parser (List α)} {close : Symbol} {what : String} {start finish : Cursor}
    (closes : close.closes = true) (empty : rest = [] → tokens = [])
    (shown : start.Shows (separator rest ++ tokens) finish) (closed : finish.kind = .symbol close)
    (others : (separator rest).length = 1 → start.next.Shows tokens finish →
      more.Answers start.next rest finish.next) :
    (do
      if ← eat .comma then return item :: (← more)
      expect close what
      return [item] : Parser (List α)).Answers start (item :: rest) finish.next := by
  rcases Cursor.shows_separator empty shown with ⟨rfl, rfl⟩ | ⟨filled, comma, shown⟩
  · have last : start.kind.isSymbol .comma = false := by
      rw [closed]
      cases close <;> first | rfl | cases closes
    simp only [Answers.eat_absent last, Bool.false_eq_true, if_false, Answers.expect_bind closed,
      Answers.pure_iff, and_self]
  · have read := others (by simp [separator, filled]) shown
    simp only [Answers.eat_found comma, if_true, Answers.bind_iff read, Answers.pure_iff, and_self]

theorem Cursor.stops_of_separator {α : Type} {rest : List α} {tokens : List TokenKind}
    {close : Symbol} {start finish : Cursor} (closes : close.closes = true)
    (empty : rest = [] → tokens = []) (shown : start.Shows (separator rest ++ tokens) finish)
    (closed : finish.kind = .symbol close) : Level.conditional.stops start.kind = true := by
  rcases Cursor.shows_separator empty shown with ⟨-, rfl⟩ | ⟨-, comma, -⟩
  · rw [closed]
    exact Symbol.stops_of_closes closes _
  · rw [comma]
    rfl

inductive ReadsItems : List TokenKind → List Expr → Prop where
  | nil : ReadsItems [] []
  | cons {tokens others : List TokenKind} {item : Expr} {rest : List Expr} :
      Level.conditional.Reads tokens item → ReadsItems others rest →
      ReadsItems (tokens ++ (separator rest ++ others)) (item :: rest)

namespace ReadsItems

variable {tokens : List TokenKind} {rest : List Expr} {close : Symbol} {start finish : Cursor}

theorem empty (reads : ReadsItems tokens rest) (none_left : rest = []) : tokens = [] := by
  cases reads with
  | nil => rfl
  | cons => cases none_left

theorem afterCommas (reads : ReadsItems tokens rest) (closes : close.closes = true)
    (depth fuel : Nat) (shown : start.Shows (separator rest ++ tokens) finish)
    (closed : finish.kind = .symbol close) (enough : 16 * tokens.length + 12 ≤ depth)
    (room : (separator rest ++ tokens).length + 1 ≤ fuel) :
    (afterCommas fuel (at? close) (expressionAt depth .conditional)).Answers start rest finish := by
  induction reads generalizing start fuel with
  | nil =>
      cases shown
      obtain ⟨fuel, rfl⟩ : ∃ inner, fuel = inner + 1 := ⟨fuel - 1, by omega⟩
      apply Answers.collect_none
      have other : finish.kind.isSymbol .comma = false := by
        rw [closed]
        cases close <;> first | rfl | cases closes
      simp only [Answers.eat_absent other, Bool.false_eq_true, if_false, Answers.pure_iff, and_self]
  | @cons tokens others item rest readItem readRest inductionHypothesis =>
      have comma : start.kind = .symbol .comma := shown.1
      obtain ⟨middle, shownItem, shownRest⟩ := Cursor.shows_append.mp
        (show start.next.Shows (tokens ++ (separator rest ++ others)) finish from shown.2)
      simp only [List.length_append, separator, List.isEmpty_cons, Bool.false_eq_true, if_false,
        List.length_cons, List.length_nil] at enough room
      obtain ⟨fuel, rfl⟩ : ∃ inner, fuel = inner + 1 := ⟨fuel - 1, by omega⟩
      have item := readItem depth start.next middle shownItem
        (Cursor.stops_of_separator closes readRest.empty shownRest closed)
        (by simp only [Level.height]; omega)
      have others := inductionHypothesis fuel shownRest (by omega)
        (by simp only [List.length_append, separator]; omega)
      refine Answers.collect_some ?_ others
      have inside := TokenKind.isSymbol_of_starts _ (expressionAt_starts item)
        (Symbol.starts_of_closes closes _)
      simp only [Answers.eat_found comma, if_true, Answers.at?_bind, inside, Bool.false_eq_true,
        if_false, Answers.bind_iff item, Answers.pure_iff, and_self]

end ReadsItems

section Brackets

variable {depth fuel : Nat} {close : Symbol} {what : String} {build : List Expr → Expr}
  {single : Expr → Expr} {start middle finish : Cursor} {first : Expr} {rest : List Expr}

theorem afterCommas_trailing (comma : start.kind = .symbol .comma)
    (closed : start.next.kind = .symbol close) :
    (afterCommas (fuel + 1) (at? close) (expressionAt depth .conditional)).Answers start []
      start.next := by
  apply Answers.collect_none
  have ended : start.next.kind.isSymbol close = true := by rw [closed]; exact beq_self_eq_true close
  simp only [Answers.eat_found comma, if_true, Answers.at?_bind, ended, Answers.pure_iff, and_self]

theorem bracketed_empty (closed : start.kind = .symbol close) :
    (bracketed depth (expressionAt depth) close what build single).Answers start (build [])
      start.next := by
  simp only [bracketed, Answers.eat_found closed, if_true, Answers.pure_iff, and_self]

theorem bracketed_single (closes : close.closes = true)
    (read : (expressionAt depth .conditional).Answers start first middle)
    (closed : middle.kind = .symbol close) :
    (bracketed depth (expressionAt depth) close what build single).Answers start (single first)
      middle.next := by
  have inside := TokenKind.isSymbol_of_starts _ (expressionAt_starts read)
    (Symbol.starts_of_closes closes _)
  have plain : middle.kind.isKeyword .forWord = false := by rw [closed]; rfl
  have alone : middle.kind.isSymbol .comma = false := by
    rw [closed]
    cases close <;> first | rfl | cases closes
  simp only [bracketed, Answers.eat_absent inside, Answers.bind_iff read, Answers.atWord?_bind, plain,
    Answers.at?_bind, alone, Answers.expect_bind closed, Bool.false_eq_true, if_false,
    Answers.pure_iff, and_self]

theorem bracketed_several (closes : close.closes = true)
    (read : (expressionAt depth .conditional).Answers start first middle)
    (comma : middle.kind = .symbol .comma)
    (others : (afterCommas depth (at? close) (expressionAt depth .conditional)).Answers middle rest
      finish) (closed : finish.kind = .symbol close) :
    (bracketed depth (expressionAt depth) close what build single).Answers start
      (build (first :: rest)) finish.next := by
  have inside := TokenKind.isSymbol_of_starts _ (expressionAt_starts read)
    (Symbol.starts_of_closes closes _)
  simp only [bracketed, Answers.eat_absent inside, Answers.bind_iff read, Answers.atWord?_bind, comma,
    TokenKind.isKeyword, Answers.at?_bind, TokenKind.isSymbol, beq_self_eq_true, if_true,
    Answers.bind_iff others, Answers.expect_bind closed, Bool.false_eq_true, if_false,
    Answers.pure_iff, and_self]

theorem bracketed_comprehension {clauses : List Clause} (closes : close.closes = true)
    (read : (expressionAt depth .conditional).Answers start first middle)
    (isFor : middle.kind = .keyword .forWord)
    (others : (Script.clauses depth (expressionAt depth)).Answers middle clauses finish)
    (closed : finish.kind = .symbol close) :
    (bracketed depth (expressionAt depth) close what build single).Answers start
      (.comprehension first clauses) finish.next := by
  have inside := TokenKind.isSymbol_of_starts _ (expressionAt_starts read)
    (Symbol.starts_of_closes closes _)
  simp only [bracketed, Answers.eat_absent inside, Answers.bind_iff read, Answers.atWord?_bind, isFor,
    TokenKind.isKeyword, beq_self_eq_true, if_true, Answers.bind_iff others,
    Answers.expect_bind closed, Bool.false_eq_true, if_false, Answers.pure_iff, and_self]

end Brackets

def TokenKind.literal? : TokenKind → Option Expr
  | .int value => some (.int value)
  | .float value => some (.float value)
  | .name word => some (.name word)
  | .keyword .trueWord => some (.bool true)
  | .keyword .falseWord => some (.bool false)
  | .keyword .noneWord => some .none
  | _ => none

inductive ReadsEntries : List TokenKind → List (Expr × Expr) → Prop where
  | nil : ReadsEntries [] []
  | cons {tokens tokens' others : List TokenKind} {key value : Expr} {rest : List (Expr × Expr)} :
      Level.conditional.Reads tokens key → Level.conditional.Reads tokens' value →
      ReadsEntries others rest →
      ReadsEntries (tokens ++ .symbol .colon :: (tokens' ++ (separator rest ++ others)))
        ((key, value) :: rest)

namespace ReadsEntries

variable {tokens : List TokenKind} {rest : List (Expr × Expr)}

theorem empty (reads : ReadsEntries tokens rest) (none_left : rest = []) : tokens = [] := by
  cases reads with
  | nil => rfl
  | cons => cases none_left

theorem answers (reads : ReadsEntries tokens rest) (depth fuel : Nat) {start finish : Cursor}
    (shown : start.Shows tokens finish) (closed : finish.kind = .symbol .rightBrace)
    (enough : 16 * tokens.length + 12 ≤ depth) (room : tokens.length + 1 ≤ fuel) :
    (entries (expressionAt depth) fuel).Answers start rest finish.next := by
  induction reads generalizing start fuel with
  | nil =>
      cases shown
      obtain ⟨fuel, rfl⟩ : ∃ inner, fuel = inner + 1 := ⟨fuel - 1, by omega⟩
      simp only [entries, Answers.eat_found closed, if_true, Answers.pure_iff, and_self]
  | @cons tokens tokens' others key value rest readKey readValue readRest inductionHypothesis =>
      obtain ⟨atColon, shownKey, colon, shown⟩ := Cursor.shows_append.mp shown
      obtain ⟨middle, shownValue, shownRest⟩ := Cursor.shows_append.mp shown
      simp only [List.length_append, List.length_cons] at enough room
      obtain ⟨fuel, rfl⟩ : ∃ inner, fuel = inner + 1 := ⟨fuel - 1, by omega⟩
      have key := readKey depth start atColon shownKey (by rw [colon]; rfl)
        (by simp only [Level.height]; omega)
      have inside := TokenKind.isSymbol_of_starts .rightBrace
        (expressionAt_starts key) rfl
      have value := readValue depth atColon.next middle shownValue
        (Cursor.stops_of_separator rfl readRest.empty shownRest closed)
        (by simp only [Level.height]; omega)
      simp only [entries, Answers.eat_absent inside, Answers.bind_iff key, Answers.eat_found colon,
        Answers.bind_iff value, Bool.false_eq_true, if_false, if_true]
      apply separated_answers rfl readRest.empty shownRest closed
      intro sole shownRest
      exact inductionHypothesis fuel shownRest (by omega) (by omega)

end ReadsEntries

namespace Level

variable {tokens : List TokenKind} {expr : Expr} {items : List Expr}

theorem resumes_literal {kind : TokenKind} (stands : kind.literal? = some expr) :
    Level.atom.Resumes [kind] expr := by
  apply resumes_of_rule rfl
  rintro depth start finish ⟨here, rfl⟩ - -
  rw [rule, Script.atom, Answers.peek_bind, here]
  unfold TokenKind.literal? at stands
  split at stands <;> cases stands <;>
    simp only [Answers.advance_bind, Answers.pure_iff, and_self]

theorem resumes_str (content : String) : Level.atom.Resumes [.str content] (.str content) := by
  apply resumes_of_rule rfl
  rintro depth start finish ⟨here, rfl⟩ stops enough
  obtain ⟨depth, rfl⟩ : ∃ inner, depth = inner + 1 := ⟨depth - 1, by omega⟩
  simp only [rule, Script.atom, Answers.peek_bind, here, Answers.advance_bind]
  -- no other string follows that would belong to the same literal
  refine (Answers.collect_none depth ?_).bind (Answers.pure_iff.mpr ⟨rfl, rfl⟩)
  rw [Answers.peek_bind]
  split
  · rename_i next found
    simp [found, Level.stops, TokenKind.extended?] at stops
  · exact Answers.pure_iff.mpr ⟨rfl, rfl⟩

theorem resumes_brackets {opening close : Symbol}
    (form : ∀ depth start middle, start.Shows tokens middle → middle.kind = .symbol close →
      ∀ before : Cursor, before.kind = .symbol opening → before.next = start →
      16 * tokens.length + 33 ≤ depth →
      (Script.atom depth (expressionAt depth)).Answers before expr middle.next) :
    Level.atom.Resumes (.symbol opening :: (tokens ++ [.symbol close])) expr := by
  apply resumes_of_rule rfl
  rintro depth start finish ⟨opened, shown⟩ - enough
  obtain ⟨middle, inside, closed, rfl⟩ := Cursor.shows_append.mp shown
  simp only [List.length_append, List.length_cons, List.length_nil, height] at enough
  exact form depth start.next middle inside closed start opened rfl (by omega)

theorem resumes_parentheses (read : Level.conditional.Reads tokens expr) :
    Level.atom.Resumes (.symbol .leftParen :: (tokens ++ [.symbol .rightParen])) expr := by
  apply resumes_brackets
  rintro depth start middle shown closed before opened rfl enough
  have inner := read depth before.next middle shown (by rw [closed]; rfl)
    (by simp only [height]; omega)
  simp only [Script.atom, Answers.peek_bind, opened, Answers.advance_bind]
  exact bracketed_single rfl inner closed

theorem resumes_list (reads : ReadsItems tokens items) :
    Level.atom.Resumes (.symbol .leftBracket :: (tokens ++ [.symbol .rightBracket]))
      (.list items) := by
  apply resumes_brackets
  rintro depth start middle shown closed before opened rfl enough
  simp only [Script.atom, Answers.peek_bind, opened, Answers.advance_bind]
  cases reads with
  | nil =>
      cases shown
      exact bracketed_empty closed
  | @cons tokens others first rest readFirst readRest =>
      obtain ⟨link, shownFirst, shownRest⟩ := Cursor.shows_append.mp shown
      simp only [List.length_append] at enough
      have inner := readFirst depth before.next link shownFirst
        (Cursor.stops_of_separator rfl readRest.empty shownRest closed)
        (by simp only [height]; omega)
      rcases Cursor.shows_separator readRest.empty shownRest with ⟨rfl, rfl⟩ | ⟨-, comma, -⟩
      · exact bracketed_single rfl inner closed
      · have others := readRest.afterCommas rfl depth depth shownRest closed
          (by omega) (by simp only [List.length_append]; omega)
        exact bracketed_several rfl inner comma others closed

theorem resumes_tuple (reads : ReadsItems tokens items) :
    Level.atom.Resumes
      (.symbol .leftParen :: (tokens ++ soleComma items ++ [.symbol .rightParen]))
      (.tuple items) := by
  apply resumes_brackets
  rintro depth start middle shown closed before opened rfl enough
  simp only [Script.atom, Answers.peek_bind, opened, Answers.advance_bind]
  obtain ⟨atEnd, shownItems, shownComma⟩ := Cursor.shows_append.mp shown
  cases reads with
  | nil =>
      cases shownItems
      cases shownComma
      exact bracketed_empty closed
  | @cons tokens others first rest readFirst readRest =>
      obtain ⟨link, shownFirst, shownRest⟩ := Cursor.shows_append.mp shownItems
      simp only [List.length_append] at enough
      cases rest with
      | nil =>
          -- the comma behind a sole item adds no item
          obtain rfl := readRest.empty rfl
          obtain rfl : link = atEnd := shownRest
          obtain ⟨comma, rfl⟩ : link.kind = .symbol .comma ∧ link.next = middle := shownComma
          have inner := readFirst depth before.next link shownFirst (by rw [comma]; rfl)
            (by simp only [height]; omega)
          obtain ⟨fuel, same⟩ : ∃ fuel, depth = fuel + 1 := ⟨depth - 1, by omega⟩
          have none_left : (Parser.afterCommas depth (at? .rightParen)
              (expressionAt depth .conditional)).Answers link [] link.next := by
            rw [same]
            exact afterCommas_trailing comma closed
          exact bracketed_several rfl inner comma none_left closed
      | cons second rest =>
          obtain rfl : atEnd = middle := shownComma
          have inner := readFirst depth before.next link shownFirst
            (Cursor.stops_of_separator rfl readRest.empty shownRest closed)
            (by simp only [height]; omega)
          have others := readRest.afterCommas rfl depth depth shownRest closed
            (by omega) (by simp only [List.length_append]; omega)
          exact bracketed_several rfl inner shownRest.kind others closed

theorem resumes_dict {entries : List (Expr × Expr)} (reads : ReadsEntries tokens entries) :
    Level.atom.Resumes (.symbol .leftBrace :: (tokens ++ [.symbol .rightBrace]))
      (.dict entries) := by
  apply resumes_brackets
  rintro depth start middle shown closed before opened rfl enough
  have inner := reads.answers depth depth shown closed (by omega) (by omega)
  simp only [Script.atom, Answers.peek_bind, opened, Answers.advance_bind, Answers.bind_iff inner,
    Answers.pure_iff, and_self]

end Level

inductive ReadsConditions : List TokenKind → List Expr → Prop where
  | nil : ReadsConditions [] []
  | cons {tokens others : List TokenKind} {condition : Expr} {rest : List Expr} :
      Level.disjunction.Reads tokens condition → ReadsConditions others rest →
      ReadsConditions (.keyword .ifWord :: (tokens ++ others)) (condition :: rest)

def condition? (expr : Level → Parser Expr) : Parser (Option Expr) := do
  if ← eatWord .ifWord then return .some (← expr .disjunction)
  else return .none

namespace ReadsConditions

variable {tokens : List TokenKind} {conditions : List Expr} {start finish : Cursor}

theorem stops (reads : ReadsConditions tokens conditions) (shown : start.Shows tokens finish)
    (stops : Level.disjunction.stops finish.kind = true) :
    Level.disjunction.stops start.kind = true := by
  cases reads with
  | nil =>
      cases shown
      exact stops
  | cons => rw [shown.kind]; rfl

theorem answers (reads : ReadsConditions tokens conditions) (depth fuel : Nat)
    (shown : start.Shows tokens finish) (stops : Level.conditional.stops finish.kind = true)
    (enough : 16 * tokens.length + 11 ≤ depth) (room : tokens.length + 1 ≤ fuel) :
    (collect fuel (condition? (expressionAt depth))).Answers start conditions finish := by
  induction reads generalizing start fuel with
  | nil =>
      cases shown
      obtain ⟨fuel, rfl⟩ : ∃ inner, fuel = inner + 1 := ⟨fuel - 1, by omega⟩
      apply Answers.collect_none
      have last := isKeyword_of_test .ifWord stops rfl
      simp only [condition?, Answers.eatWord_absent last, Bool.false_eq_true, if_false,
        Answers.pure_iff, and_self]
  | @cons tokens others condition rest readFirst readRest inductionHypothesis =>
      obtain ⟨isIf, shown⟩ := shown
      obtain ⟨middle, shownFirst, shownRest⟩ := Cursor.shows_append.mp shown
      simp only [List.length_append, List.length_cons] at enough room
      obtain ⟨fuel, rfl⟩ : ∃ inner, fuel = inner + 1 := ⟨fuel - 1, by omega⟩
      have condition := readFirst depth start.next middle shownFirst
        (readRest.stops shownRest (Level.stops_mono stops (by decide)))
        (by simp only [Level.height]; omega)
      have others := inductionHypothesis fuel shownRest (by omega) (by omega)
      refine Answers.collect_some ?_ others
      simp only [condition?, Answers.eatWord_found isIf, if_true, Answers.bind_iff condition,
        Answers.pure_iff, and_self]

end ReadsConditions

inductive ReadsClauses : List TokenKind → List Clause → Prop where
  | nil : ReadsClauses [] []
  | cons {targetTokens tokens conditionTokens others : List TokenKind} {targetExpr iterable : Expr}
      {target : Target} {conditions : List Expr} {rest : List Clause} :
      Level.sum.Reads targetTokens targetExpr → targetExpr.toTarget = .ok target →
      Level.disjunction.Reads tokens iterable → ReadsConditions conditionTokens conditions →
      ReadsClauses others rest →
      ReadsClauses
        (.keyword .forWord :: (targetTokens ++
          .keyword .inWord :: (tokens ++ (conditionTokens ++ others))))
        (.mk target iterable conditions :: rest)

def clause? (depth : Nat) (expr : Level → Parser Expr) : Parser (Option Clause) := do
  if ← eatWord .forWord then
    let target ← targetList depth expr (← line)
    unless ← eatWord .inWord do fail (.expected "'in'")
    let iterable ← expr .disjunction
    let conditions ← collect depth (condition? expr)
    return .some (.mk target iterable conditions)
  else return .none

theorem targetList_answers (depth line : Nat) {expr : Level → Parser Expr} {start finish : Cursor}
    {first : Expr} {target : Target} (read : (expr .sum).Answers start first finish)
    (isTarget : first.toTarget = .ok target) (isIn : finish.kind = .keyword .inWord) :
    (targetList depth expr line).Answers start target finish := by
  have alone : finish.kind.isSymbol .comma = false := by rw [isIn]; rfl
  simp only [targetList, Answers.bind_iff read, Answers.at?_bind, alone, Bool.false_eq_true, if_false,
    asTarget, isTarget, Answers.pure_iff, and_self]

namespace ReadsClauses

variable {tokens : List TokenKind} {clauses : List Clause} {start finish : Cursor}

theorem stops (reads : ReadsClauses tokens clauses) (shown : start.Shows tokens finish)
    (stops : Level.conditional.stops finish.kind = true) :
    Level.conditional.stops start.kind = true := by
  cases reads with
  | nil =>
      cases shown
      exact stops
  | cons => rw [shown.kind]; rfl

theorem answers (reads : ReadsClauses tokens clauses) {close : Symbol}
    (closes : close.closes = true) (depth fuel : Nat) (shown : start.Shows tokens finish)
    (closed : finish.kind = .symbol close)
    (enough : 16 * tokens.length + 11 ≤ depth) (room : tokens.length + 1 ≤ fuel) :
    (collect fuel (clause? depth (expressionAt depth))).Answers start clauses finish := by
  have ended : Level.conditional.stops finish.kind = true := by
    rw [closed]
    exact Symbol.stops_of_closes closes _
  induction reads generalizing start fuel with
  | nil =>
      cases shown
      obtain ⟨fuel, rfl⟩ : ∃ inner, fuel = inner + 1 := ⟨fuel - 1, by omega⟩
      apply Answers.collect_none
      have last : finish.kind.isKeyword .forWord = false := by rw [closed]; rfl
      simp only [clause?, Answers.eatWord_absent last, Bool.false_eq_true, if_false,
        Answers.pure_iff, and_self]
  | @cons targetTokens tokens conditionTokens others targetExpr iterable target conditions rest
      readTarget isTarget readIterable readConditions readRest inductionHypothesis =>
      obtain ⟨isFor, shown⟩ := shown
      obtain ⟨atIn, shownTarget, isIn, shown⟩ := Cursor.shows_append.mp shown
      obtain ⟨atConditions, shownIterable, shown⟩ := Cursor.shows_append.mp shown
      obtain ⟨middle, shownConditions, shownRest⟩ := Cursor.shows_append.mp shown
      simp only [List.length_append, List.length_cons] at enough room
      obtain ⟨fuel, rfl⟩ : ∃ inner, fuel = inner + 1 := ⟨fuel - 1, by omega⟩
      have behind := readRest.stops shownRest ended
      have first := readTarget depth start.next atIn shownTarget (by rw [isIn]; rfl)
        (by simp only [Level.height]; omega)
      have target := targetList_answers depth start.next.line first isTarget isIn
      have iterable := readIterable depth atIn.next atConditions shownIterable
        (readConditions.stops shownConditions (Level.stops_mono behind (by decide)))
        (by simp only [Level.height]; omega)
      have conditions := readConditions.answers depth depth shownConditions behind
        (by omega) (by omega)
      have others := inductionHypothesis fuel shownRest (by omega) (by omega)
      refine Answers.collect_some ?_ others
      simp only [clause?, Answers.eatWord_found isFor, if_true, Answers.line_bind,
        Answers.bind_iff target, Answers.eatWord_found isIn, Answers.bind_iff iterable]
      exact conditions.bind (Answers.pure_iff.mpr ⟨rfl, rfl⟩)

end ReadsClauses

theorem Level.resumes_comprehension {tokens others : List TokenKind} {element : Expr}
    {clauses : List Clause} (filled : clauses ≠ [])
    (read : Level.conditional.Reads tokens element) (reads : ReadsClauses others clauses) :
    Level.atom.Resumes (.symbol .leftBracket :: (tokens ++ others ++ [.symbol .rightBracket]))
      (.comprehension element clauses) := by
  apply resumes_brackets
  rintro depth start middle shown closed before opened rfl enough
  obtain ⟨link, shownFirst, shownRest⟩ := Cursor.shows_append.mp shown
  simp only [List.length_append] at enough
  have ended : Level.conditional.stops middle.kind = true := by rw [closed]; rfl
  have inner := read depth before.next link shownFirst (reads.stops shownRest ended)
    (by simp only [height]; omega)
  have others := reads.answers rfl depth depth shownRest closed (by omega) (by omega)
  simp only [Script.atom, Answers.peek_bind, opened, Answers.advance_bind]
  cases reads with
  | nil => exact (filled rfl).elim
  | cons => exact bracketed_comprehension rfl inner shownRest.kind others closed

end Stepwise.Script
