import Stepwise.Script.Lexer
import Stepwise.Script.Tree

/-!
Reading a program from its tokens.

The expression grammar is a ladder: `Level` names its rungs from the loosest to the tightest, and
`rule` says how an expression of a rung is read when expressions of every rung can be read.
`expressionAt` and `statementAt` close the circle for a bounded depth of nesting; a reader that
goes below the bound gives no answer at all, which is not a syntax error.
-/

namespace Stepwise.Script

/-- The tokens that are left and what has been read so far. -/
structure Cursor where
  /-- The tokens ahead; the last one marks the end of the input and stays. -/
  tokens : List Token
  /-- The line of the last token read that has a text of its own. -/
  lastLine : Nat
  /-- The functions read so far. -/
  functions : List Definition

namespace Cursor

def kind (cursor : Cursor) : TokenKind :=
  match cursor.tokens with
  | [] => .endOfInput
  | token :: _ => token.kind

def secondKind (cursor : Cursor) : TokenKind :=
  match cursor.tokens with
  | _ :: token :: _ => token.kind
  | _ => cursor.kind

def line (cursor : Cursor) : Nat :=
  match cursor.tokens with
  | [] => cursor.lastLine
  | token :: _ => token.position.line

def next (cursor : Cursor) : Cursor :=
  match cursor.tokens with
  | [] => cursor
  | token :: rest =>
      let lastLine := match token.kind with
        | .indent | .dedent | .endOfInput => cursor.lastLine
        | _ => token.position.line
      { cursor with tokens := if rest.isEmpty then [token] else rest, lastLine := lastLine }

end Cursor

/-- A reader of tokens.  It answers with a result or a syntax error, or runs out of depth. -/
abbrev Parser := StateT Cursor (ExceptT SyntaxError Option)

namespace Parser

def outOfDepth {α : Type} : Parser α := fun _ => ExceptT.mk Option.none

def peek : Parser TokenKind := return (← get).kind

def line : Parser Nat := return (← get).line

def advance : Parser Unit := modify Cursor.next

/-- A problem at the next token.  A reserved word there is the problem itself. -/
def fail {α : Type} (problem : SyntaxProblem) : Parser α := do
  let cursor ← get
  throw ⟨cursor.line, match cursor.kind with
    | .reserved word => .unsupportedWord word
    | _ => problem⟩

def eatIf (test : TokenKind → Bool) : Parser Bool := do
  if test (← peek) then
    advance
    return true
  else return false

def eat (symbol : Symbol) : Parser Bool := eatIf (·.isSymbol symbol)

def eatWord (keyword : Keyword) : Parser Bool := eatIf (·.isKeyword keyword)

def at? (symbol : Symbol) : Parser Bool := return (← peek).isSymbol symbol

def atWord? (keyword : Keyword) : Parser Bool := return (← peek).isKeyword keyword

def expect (symbol : Symbol) (what : String) : Parser Unit := do
  unless ← eat symbol do fail (.expected what)

def expectName (what : String) : Parser String := do
  match ← peek with
  | .name word => do
      advance
      return word
  | _ => fail (.expected what)

def atStatementEnd? : Parser Bool := do
  match ← peek with
  | .newline | .symbol .semicolon | .endOfInput => return true
  | _ => return false

/-- The results of a reader that is run until it finds nothing. -/
def collect {α : Type} : Nat → Parser (Option α) → Parser (List α)
  | 0, _ => outOfDepth
  | depth + 1, step => do
      match ← step with
      | .none => return []
      | .some item => return item :: (← collect depth step)

/-- Items after a first one, each behind a comma; a comma before the end adds no item. -/
def afterCommas {α : Type} (depth : Nat) (ended : Parser Bool) (item : Parser α) :
    Parser (List α) :=
  collect depth do
    if ← eat .comma then
      if ← ended then return .none
      else return .some (← item)
    else return .none

end Parser

open Stepwise.Script.Parser

mutual

def Expr.toTarget : Expr → Except SyntaxProblem Target
  | .name name => .ok (.name name)
  | .index object index => .ok (.index object index)
  | .tuple items => return .unpack (← toTargets items)
  | .list items => return .unpack (← toTargets items)
  | .call .. => .error .assignsCall
  | .method .. => .error .assignsCall
  | .slice .. => .error .assignsSlice
  | .attribute .. => .error .assignsAttribute
  | _ => .error .assignsExpression

def toTargets : List Expr → Except SyntaxProblem (List Target)
  | [] => .ok []
  | item :: rest => return (← item.toTarget) :: (← toTargets rest)

end

/-- An expression as a target; a problem is reported on `line`. -/
def asTarget (line : Nat) (expr : Expr) : Parser Target :=
  match expr.toTarget with
  | .ok target => return target
  | .error problem => throw ⟨line, problem⟩

/-- The rungs of the expression grammar, the loosest first. -/
inductive Level where
  | conditional | disjunction | conjunction | negation | comparison | sum | term | factor | power
  | trailer | atom
  deriving Repr, DecidableEq

def sumOp? : TokenKind → Option BinaryOp
  | .symbol .plus => some .add
  | .symbol .minus => some .subtract
  | _ => none

def termOp? : TokenKind → Option BinaryOp
  | .symbol .star => some .multiply
  | .symbol .slash => some .divide
  | .symbol .doubleSlash => some .floorDivide
  | .symbol .percent => some .modulo
  | _ => none

def signOp? : TokenKind → Option UnaryOp
  | .symbol .minus => some .negate
  | .symbol .plus => some .plus
  | _ => none

def augmentOp? : TokenKind → Option BinaryOp
  | .symbol .plusAssign => some .add
  | .symbol .minusAssign => some .subtract
  | .symbol .starAssign => some .multiply
  | .symbol .slashAssign => some .divide
  | .symbol .doubleSlashAssign => some .floorDivide
  | .symbol .percentAssign => some .modulo
  | .symbol .doubleStarAssign => some .power
  | _ => none

/-- The comparison that starts with a token, given the token after it, and whether it takes both. -/
def comparisonOp? : TokenKind → TokenKind → Option (Comparison × Bool)
  | .symbol .equal, _ => some (.equal, false)
  | .symbol .notEqual, _ => some (.notEqual, false)
  | .symbol .less, _ => some (.less, false)
  | .symbol .lessEqual, _ => some (.lessEqual, false)
  | .symbol .greater, _ => some (.greater, false)
  | .symbol .greaterEqual, _ => some (.greaterEqual, false)
  | .keyword .inWord, _ => some (.member, false)
  | .keyword .notWord, .keyword .inWord => some (.notMember, true)
  | .keyword .isWord, .keyword .notWord => some (.notSame, true)
  | .keyword .isWord, _ => some (.same, false)
  | _, _ => none

/-- Operands of one level with operators between them, grouped from the left. -/
def leftChain {α : Type} (depth : Nat) (operator? : TokenKind → Option α) (operand : Parser Expr)
    (build : α → Expr → Expr → Expr) : Parser Expr := do
  let first ← operand
  let links ← collect depth do
    match operator? (← peek) with
    | .none => return .none
    | .some op => do
        advance
        return .some (op, ← operand)
  return links.foldl (fun left link => build link.1 left link.2) first

def comparisonLinks (depth : Nat) (operand : Parser Expr) : Parser (List (Comparison × Expr)) :=
  collect depth do
    let cursor ← get
    match comparisonOp? cursor.kind cursor.secondKind with
    | .none => return .none
    | .some (op, double) => do
        advance
        if double then advance
        return .some (op, ← operand)

/-- A target or several of them; they stop below the comparisons, so that `in` is left. -/
def targetList (depth : Nat) (expr : Level → Parser Expr) (line : Nat) : Parser Target := do
  let first ← expr .sum
  if ← at? .comma then
    let rest ← afterCommas depth (atWord? .inWord) (expr .sum)
    asTarget line (.tuple (first :: rest))
  else asTarget line first

/-- The `for` clauses of a comprehension. -/
def clauses (depth : Nat) (expr : Level → Parser Expr) : Parser (List Clause) :=
  collect depth do
    if ← eatWord .forWord then
      let target ← targetList depth expr (← line)
      unless ← eatWord .inWord do fail (.expected "'in'")
      let iterable ← expr .disjunction
      let conditions ← collect depth do
        if ← eatWord .ifWord then return .some (← expr .disjunction)
        else return .none
      return .some (.mk target iterable conditions)
    else return .none

/-- The arguments of a call up to the closing bracket. -/
def arguments (expr : Level → Parser Expr) : Nat → Bool → Parser (List Argument)
  | 0, _ => outOfDepth
  | depth + 1, named => do
      if ← eat .rightParen then return []
      let cursor ← get
      if cursor.kind.isSymbol .star || cursor.kind.isSymbol .doubleStar then
        fail .unpackedArgument
      else
        match cursor.kind, cursor.secondKind with
        | .name name, .symbol .assign => do
            advance
            advance
            let argument := Argument.keyword name (← expr .conditional)
            if ← eat .comma then return argument :: (← arguments expr depth true)
            expect .rightParen "')'"
            return [argument]
        | _, _ => do
            if named then fail .argumentOrder
            let value ← expr .conditional
            if ← atWord? .forWord then
              let clauses ← clauses depth expr
              expect .rightParen "')'"
              return [.positional (.comprehension value clauses)]
            if ← eat .comma then return .positional value :: (← arguments expr depth named)
            expect .rightParen "')'"
            return [.positional value]

def subscript (depth : Nat) (expr : Level → Parser Expr) (object : Expr) : Parser Expr := do
  let lower ← if ← at? .colon then pure Option.none else .some <$> expr .conditional
  if ← eat .colon then
    let upper ← if (← at? .colon) || (← at? .rightBracket) then pure Option.none
      else .some <$> expr .conditional
    let step ←
      if ← eat .colon then
        if ← at? .rightBracket then pure Option.none else .some <$> expr .conditional
      else pure Option.none
    expect .rightBracket "']'"
    return .slice object lower upper step
  match lower with
  | .none => fail .unexpected
  | .some first => do
      let index ←
        if ← at? .comma then
          let rest ← afterCommas depth (at? .rightBracket) (expr .conditional)
          pure (.tuple (first :: rest))
        else pure first
      expect .rightBracket "']'"
      return .index object index

def trailers (expr : Level → Parser Expr) : Nat → Expr → Parser Expr
  | 0, _ => outOfDepth
  | depth + 1, object => do
      if ← eat .leftParen then
        trailers expr depth (.call object (← arguments expr depth false))
      else if ← eat .leftBracket then
        trailers expr depth (← subscript depth expr object)
      else if ← eat .dot then
        let name ← expectName "attribute name"
        if ← eat .leftParen then
          trailers expr depth (.method object name (← arguments expr depth false))
        else trailers expr depth (.attribute object name)
      else return object

def entries (expr : Level → Parser Expr) : Nat → Parser (List (Expr × Expr))
  | 0 => outOfDepth
  | depth + 1 => do
      if ← eat .rightBrace then return []
      let key ← expr .conditional
      unless ← eat .colon do fail .setDisplay
      let value ← expr .conditional
      if ← eat .comma then return (key, value) :: (← entries expr depth)
      expect .rightBrace "'\x7d'"
      return [(key, value)]

/-- What stands in parentheses or square brackets.  `build` makes the value of several items;
`single` says what one item without a comma is. -/
def bracketed (depth : Nat) (expr : Level → Parser Expr) (close : Symbol) (what : String)
    (build : List Expr → Expr) (single : Expr → Expr) : Parser Expr := do
  if ← eat close then return build []
  let first ← expr .conditional
  if ← atWord? .forWord then
    let clauses ← clauses depth expr
    expect close what
    return .comprehension first clauses
  if ← at? .comma then
    let rest ← afterCommas depth (at? close) (expr .conditional)
    expect close what
    return build (first :: rest)
  expect close what
  return single first

def atom (depth : Nat) (expr : Level → Parser Expr) : Parser Expr := do
  match ← peek with
  | .int value => do advance; return .int value
  | .float value => do advance; return .float value
  | .str content => do
      advance
      let more ← collect depth do
        match ← peek with
        | .str next => do
            advance
            return .some next
        | _ => return .none
      return .str (more.foldl (· ++ ·) content)
  | .name name => do advance; return .name name
  | .keyword .trueWord => do advance; return .bool true
  | .keyword .falseWord => do advance; return .bool false
  | .keyword .noneWord => do advance; return .none
  | .symbol .leftParen => do
      advance
      bracketed depth expr .rightParen "')'" .tuple id
  | .symbol .leftBracket => do
      advance
      bracketed depth expr .rightBracket "']'" .list fun item => .list [item]
  | .symbol .leftBrace => do
      advance
      return .dict (← entries expr depth)
  | _ => fail .unexpected

/-- How an expression of a level is read, given a reader for every level. -/
def rule (depth : Nat) (expr : Level → Parser Expr) : Level → Parser Expr
  | .conditional => do
      let body ← expr .disjunction
      if ← eatWord .ifWord then
        let test ← expr .disjunction
        unless ← eatWord .elseWord do
          fail (.expected "'else' after conditional expression")
        return .conditional test body (← expr .conditional)
      else return body
  | .disjunction =>
      leftChain depth (fun kind => if kind.isKeyword .orWord then some LogicOp.or else none)
        (expr .conjunction) .logic
  | .conjunction =>
      leftChain depth (fun kind => if kind.isKeyword .andWord then some LogicOp.and else none)
        (expr .negation) .logic
  | .negation => do
      if ← eatWord .notWord then return .unary .not (← expr .negation)
      else expr .comparison
  | .comparison => do
      let left ← expr .sum
      match ← comparisonLinks depth (expr .sum) with
      | [] => return left
      | links => return .compare left links
  | .sum => leftChain depth sumOp? (expr .term) .binary
  | .term => leftChain depth termOp? (expr .factor) .binary
  | .factor => do
      match signOp? (← peek) with
      | .some op => do
          advance
          return .unary op (← expr .factor)
      | .none => expr .power
  | .power => do
      let base ← expr .trailer
      if ← eat .doubleStar then return .binary .power base (← expr .factor)
      else return base
  | .trailer => do trailers expr depth (← expr .atom)
  | .atom => atom depth expr

/-- An expression of a level, nested no deeper than `depth`. -/
def expressionAt : Nat → Level → Parser Expr
  | 0, _ => outOfDepth
  | depth + 1, level => rule depth (expressionAt depth) level

def testList (depth : Nat) : Parser Expr := do
  let first ← expressionAt depth .conditional
  if ← at? .comma then
    let ended := do return (← atStatementEnd?) || (← at? .assign)
    return .tuple (first :: (← afterCommas depth ended (expressionAt depth .conditional)))
  else return first

structure Surroundings where
  inFunction : Bool
  inLoop : Bool

/-- An expression, an assignment or an augmented assignment that starts on `line`. -/
def expressionStatement (depth : Nat) (line : Nat) : Parser Form := do
  let first ← testList depth
  if ← at? .assign then
    let rest ← collect depth do
      if ← eat .assign then return .some (← testList depth)
      else return .none
    let targets ← (first :: rest).dropLast.mapM (asTarget line)
    return .assign targets (rest.getLastD first)
  else
    match augmentOp? (← peek) with
    | .some op => do
        advance
        match ← asTarget line first with
        | .unpack _ => throw ⟨line, .augmentsSequence⟩
        | target => return .augment target op (← testList depth)
    | .none => return .expr first

def smallForm (depth : Nat) (around : Surroundings) : Parser Form := do
  let line ← line
  match ← peek with
  | .keyword .passWord => do advance; return .pass
  | .keyword .breakWord => do
      unless around.inLoop do fail .breakOutsideLoop
      advance
      return .breakLoop
  | .keyword .continueWord => do
      unless around.inLoop do fail .continueOutsideLoop
      advance
      return .continueLoop
  | .keyword .returnWord => do
      unless around.inFunction do fail .returnOutsideFunction
      advance
      if ← atStatementEnd? then return .giveBack .none
      else return .giveBack (.some (← testList depth))
  | .keyword .raiseWord => do
      advance
      if ← atStatementEnd? then return .raise .none
      else return .raise (.some (← expressionAt depth .conditional))
  | .keyword .assertWord => do
      advance
      let test ← expressionAt depth .conditional
      if ← eat .comma then return .assert test (.some (← expressionAt depth .conditional))
      else return .assert test .none
  | .keyword .defWord => fail .inlineDefinition
  | _ => expressionStatement depth line

def simpleLine (around : Surroundings) : Nat → Bool → Parser (List Statement)
  | 0, _ => outOfDepth
  | depth + 1, sameLine => do
      let line ← line
      let statement := Statement.mk line sameLine (← smallForm depth around)
      if ← eat .semicolon then
        unless (← peek) matches .newline do
          return statement :: (← simpleLine around depth true)
      unless ← eatIf (· matches .newline) do
        unless (← peek) matches .endOfInput do fail .unexpected
      return [statement]

/-- The statements behind a colon: on the same line, or indented below. -/
def block (depth : Nat) (statement : Surroundings → Parser (List Statement))
    (around : Surroundings) (header : String) : Parser (List Statement) := do
  let headerLine ← line
  expect .colon "':'"
  if ← eatIf (· matches .newline) then
    unless ← eatIf (· matches .indent) do throw ⟨← line, .missingBlock header headerLine⟩
    let body ← collect depth do
      match ← peek with
      | .dedent | .endOfInput => return .none
      | _ => return .some (← statement around)
    discard <| eatIf (· matches .dedent)
    return body.flatten
  else simpleLine around depth true

/-- The parameters of a function up to the closing bracket; `earlier` have been read. -/
def parameters : Nat → List Parameter → Parser (List Parameter)
  | 0, _ => outOfDepth
  | depth + 1, earlier => do
      if ← eat .rightParen then return earlier
      let kind ← peek
      if kind.isSymbol .star || kind.isSymbol .doubleStar then fail .variadicParameter
      let name ← expectName "parameter name"
      if earlier.any (·.name == name) then fail (.repeatedParameter name)
      if ← eat .colon then
        discard <| expressionAt depth .conditional
      let default ←
        if ← eat .assign then .some <$> expressionAt depth .conditional
        else do
          if earlier.any (·.default.isSome) then fail .parameterOrder
          pure Option.none
      let read := earlier ++ [⟨name, default⟩]
      if ← eat .comma then parameters depth read
      else do
        expect .rightParen "')'"
        return read

/-- A body without the string that documents it, unless there is nothing else in it. -/
def stripDocumentation : List Statement → List Statement
  | .mk _ _ (.expr (.str _)) :: next :: rest => next.onOwnLine :: rest
  | body => body

def definition (depth : Nat) (statement : Surroundings → Parser (List Statement))
    (around : Surroundings) : Parser Statement := do
  let firstLine ← line
  if around.inFunction then fail .nestedDefinition
  advance
  let name ← expectName "function name"
  expect .leftParen "'('"
  let parameters ← parameters depth []
  if ← eat .arrow then
    discard <| expressionAt depth .conditional
  let body ← stripDocumentation <$> block depth statement ⟨true, false⟩ "def"
  let cursor ← get
  let id := cursor.functions.length
  let function : Definition :=
    { id, name, parameters, body, firstLine
      lastLine := max cursor.lastLine firstLine
      locals := addBlockNames (parameters.map (·.name)) body }
  set { cursor with functions := cursor.functions ++ [function] }
  return .mk firstLine false (.define id)

/-- A test, its block and the line they start on, behind `if` or `elif`. -/
def guardedBlock (depth : Nat) (statement : Surroundings → Parser (List Statement))
    (around : Surroundings) : Parser (Nat × Expr × List Statement) := do
  let line ← line
  advance
  let test ← expressionAt depth .conditional
  return (line, test, ← block depth statement around "if")

/-- An `if` statement.  Each `elif` is an `if` of its own in the other branch. -/
def branches (depth : Nat) (statement : Surroundings → Parser (List Statement))
    (around : Surroundings) : Parser (List Statement) := do
  let first ← guardedBlock depth statement around
  let rest ← collect depth do
    if ← atWord? .elifWord then return .some (← guardedBlock depth statement around)
    else return .none
  let last ← if ← eatWord .elseWord then block depth statement around "else" else pure []
  return (first :: rest).foldr
    (fun guarded orelse =>
      [.mk guarded.1 false (.branch guarded.2.1 guarded.2.2 orelse)]) last

def rejectLoopElse : Parser Unit := do
  if ← atWord? .elseWord then fail .loopElse

def statementRule (depth : Nat) (statement : Surroundings → Parser (List Statement))
    (around : Surroundings) : Parser (List Statement) := do
  let line ← line
  match ← peek with
  | .keyword .ifWord => branches depth statement around
  | .keyword .whileWord => do
      advance
      let test ← expressionAt depth .conditional
      let body ← block depth statement { around with inLoop := true } "while"
      rejectLoopElse
      return [.mk line false (.whileLoop test body)]
  | .keyword .forWord => do
      advance
      let target ← targetList depth (expressionAt depth) line
      unless ← eatWord .inWord do fail (.expected "'in'")
      let iterable ← testList depth
      let body ← block depth statement { around with inLoop := true } "for"
      rejectLoopElse
      return [.mk line false (.forLoop target iterable body)]
  | .keyword .defWord => return [← definition depth statement around]
  | .keyword .elifWord => fail .looseElse
  | .keyword .elseWord => fail .looseElse
  | _ => simpleLine around depth false

/-- A line of statements or a compound statement, nested no deeper than `depth`. -/
def statementAt : Nat → Surroundings → Parser (List Statement)
  | 0, _ => outOfDepth
  | depth + 1, around => statementRule depth (statementAt depth) around

def program (depth : Nat) : Parser Program := do
  let body ← collect depth do
    match ← peek with
    | .endOfInput => return .none
    | .indent => fail .unexpectedIndent
    | _ => return .some (← statementAt depth ⟨false, false⟩)
  return ⟨(← get).functions, body.flatten⟩

/-- A depth that no program with this many tokens goes beyond: a token leads at most once down the
whole ladder. -/
def depthFor (tokens : Nat) : Nat := 16 * tokens + 16

def Program.ofTokens? (tokens : List Token) : Option (Except SyntaxError Program) :=
  ((program (depthFor tokens.length)).run' ⟨tokens, 1, []⟩).run

/-- The program that a source text forms. -/
def Program.parse? (source : String) : Option (Except SyntaxError Program) :=
  match tokenize source with
  | .error error => some (.error error)
  | .ok tokens => Program.ofTokens? tokens

end Stepwise.Script
