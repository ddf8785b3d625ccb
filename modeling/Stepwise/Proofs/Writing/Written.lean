import Stepwise.Script.Parser

/-!
Expressions written with as few parentheses as the ladder of levels allows.

`Expr.bare` gives the tokens of an expression and `Expr.rung` the level that these tokens belong to;
where a tighter level is read, the expression stands in parentheses.  Tuples always do.
-/

namespace Stepwise.Script

namespace Level

def height : Level → Nat
  | .conditional => 10
  | .disjunction => 9
  | .conjunction => 8
  | .negation => 7
  | .comparison => 6
  | .sum => 5
  | .term => 4
  | .factor => 3
  | .power => 2
  | .trailer => 1
  | .atom => 0

theorem height_injective {level other : Level} (same : level.height = other.height) :
    level = other := by
  cases level <;> cases other <;> first | rfl | cases same

theorem height_le_conditional (level : Level) : level.height ≤ Level.conditional.height := by
  cases level <;> decide

def tighter : Level → Level
  | .conditional => .disjunction
  | .disjunction => .conjunction
  | .conjunction => .negation
  | .negation => .comparison
  | .comparison => .sum
  | .sum => .term
  | .term => .factor
  | .factor => .power
  | .power => .trailer
  | .trailer => .atom
  | .atom => .atom

theorem height_tighter {level : Level} (inner : level ≠ .atom) :
    level.tighter.height + 1 = level.height := by
  cases level <;> first | rfl | cases inner rfl

end Level

def TokenKind.extended? : TokenKind → Option Level
  | .str _ => some .atom
  | .symbol .leftParen | .symbol .leftBracket | .symbol .dot => some .trailer
  | .symbol .doubleStar => some .power
  | .symbol .star | .symbol .slash | .symbol .doubleSlash | .symbol .percent => some .term
  | .symbol .plus | .symbol .minus => some .sum
  | .symbol .equal | .symbol .notEqual | .symbol .less | .symbol .lessEqual | .symbol .greater
  | .symbol .greaterEqual | .keyword .inWord | .keyword .notWord | .keyword .isWord =>
      some .comparison
  | .keyword .andWord => some .conjunction
  | .keyword .orWord => some .disjunction
  | .keyword .ifWord => some .conditional
  | _ => none

/-- Whether no expression of a level or a tighter one goes on with a token. -/
def Level.stops (level : Level) (kind : TokenKind) : Bool :=
  match kind.extended? with
  | some extended => level.height < extended.height
  | none => true

/-- Whether an expression of a level can start with a token. -/
def TokenKind.starts (kind : TokenKind) (level : Level) : Bool :=
  match kind with
  | .name _ | .int _ | .float _ | .str _ | .keyword .trueWord | .keyword .falseWord
  | .keyword .noneWord | .symbol .leftParen | .symbol .leftBracket | .symbol .leftBrace => true
  | .symbol .plus | .symbol .minus => Level.factor.height ≤ level.height
  | .keyword .notWord => Level.negation.height ≤ level.height
  | _ => false

/-- The level that an arithmetic operator builds expressions of. -/
def BinaryOp.level : BinaryOp → Level
  | .add | .subtract => .sum
  | .multiply | .divide | .floorDivide | .modulo => .term
  | .power => .power

/-- The loosest level of a left operand: operators group from the left, apart from powers. -/
def BinaryOp.leftLevel : BinaryOp → Level
  | .power => .trailer
  | op => op.level

def BinaryOp.rightLevel : BinaryOp → Level
  | .power => .factor
  | op => op.level.tighter

def BinaryOp.kind : BinaryOp → TokenKind
  | .add => .symbol .plus
  | .subtract => .symbol .minus
  | .multiply => .symbol .star
  | .divide => .symbol .slash
  | .floorDivide => .symbol .doubleSlash
  | .modulo => .symbol .percent
  | .power => .symbol .doubleStar

def UnaryOp.level : UnaryOp → Level
  | .negate | .plus => .factor
  | .not => .negation

def UnaryOp.kind : UnaryOp → TokenKind
  | .negate => .symbol .minus
  | .plus => .symbol .plus
  | .not => .keyword .notWord

def LogicOp.level : LogicOp → Level
  | .and => .conjunction
  | .or => .disjunction

def LogicOp.kind : LogicOp → TokenKind
  | .and => .keyword .andWord
  | .or => .keyword .orWord

def Comparison.kinds : Comparison → List TokenKind
  | .equal => [.symbol .equal]
  | .notEqual => [.symbol .notEqual]
  | .less => [.symbol .less]
  | .lessEqual => [.symbol .lessEqual]
  | .greater => [.symbol .greater]
  | .greaterEqual => [.symbol .greaterEqual]
  | .member => [.keyword .inWord]
  | .notMember => [.keyword .notWord, .keyword .inWord]
  | .same => [.keyword .isWord]
  | .notSame => [.keyword .isWord, .keyword .notWord]

/-- The level that the tokens of an expression belong to. -/
def Expr.rung : Expr → Level
  | .unary op _ => op.level
  | .binary op _ _ => op.level
  | .compare .. => .comparison
  | .logic op _ _ => op.level
  | .conditional .. => .conditional
  | .call .. | .method .. | .attribute .. | .index .. | .slice .. => .trailer
  | _ => .atom

/-- The loosest level of what is called.  An attribute is put in parentheses: without them, its name
and the call are a method call. -/
def Expr.calledLevel : Expr → Level
  | .attribute .. => .atom
  | _ => .trailer

def Target.rung : Target → Level
  | .index .. => .trailer
  | _ => .atom

/-- The tokens of an expression where a level is read. -/
def placed (level rung : Level) (tokens : List TokenKind) : List TokenKind :=
  if rung.height ≤ level.height then tokens
  else .symbol .leftParen :: (tokens ++ [.symbol .rightParen])

def separator {α : Type} (rest : List α) : List TokenKind :=
  if rest.isEmpty then [] else [.symbol .comma]

def soleComma {α : Type} : List α → List TokenKind
  | [_] => [.symbol .comma]
  | _ => []

mutual

/-- The tokens of an expression that nothing stands around. -/
def Expr.bare : Expr → List TokenKind
  | .none => [.keyword .noneWord]
  | .bool true => [.keyword .trueWord]
  | .bool false => [.keyword .falseWord]
  | .int value => [.int value]
  | .float value => [.float value]
  | .str content => [.str content]
  | .name name => [.name name]
  | .list items => .symbol .leftBracket :: (itemTokens items ++ [.symbol .rightBracket])
  | .tuple items =>
      .symbol .leftParen :: (itemTokens items ++ soleComma items ++ [.symbol .rightParen])
  | .dict entries => .symbol .leftBrace :: (entryTokens entries ++ [.symbol .rightBrace])
  | .comprehension element clauses =>
      .symbol .leftBracket ::
        (placed .conditional element.rung element.bare ++ clauseTokens clauses ++
          [.symbol .rightBracket])
  | .unary op operand => op.kind :: placed op.level operand.rung operand.bare
  | .binary op left right =>
      placed op.leftLevel left.rung left.bare ++
        op.kind :: placed op.rightLevel right.rung right.bare
  | .compare left links => placed .sum left.rung left.bare ++ linkTokens links
  | .logic op left right =>
      placed op.level left.rung left.bare ++
        op.kind :: placed op.level.tighter right.rung right.bare
  | .conditional test body orelse =>
      placed .disjunction body.rung body.bare ++
        .keyword .ifWord :: (placed .disjunction test.rung test.bare ++
          .keyword .elseWord :: placed .conditional orelse.rung orelse.bare)
  | .call function arguments =>
      placed function.calledLevel function.rung function.bare ++
        .symbol .leftParen :: (argumentTokens arguments ++ [.symbol .rightParen])
  | .method object name arguments =>
      placed .trailer object.rung object.bare ++
        .symbol .dot :: .name name ::
          .symbol .leftParen :: (argumentTokens arguments ++ [.symbol .rightParen])
  | .attribute object name =>
      placed .trailer object.rung object.bare ++ [.symbol .dot, .name name]
  | .index object index =>
      placed .trailer object.rung object.bare ++
        .symbol .leftBracket ::
          (placed .conditional index.rung index.bare ++ [.symbol .rightBracket])
  | .slice object lower upper step =>
      placed .trailer object.rung object.bare ++
        .symbol .leftBracket ::
          (boundTokens lower ++ .symbol .colon :: (boundTokens upper ++ stepTokens step) ++
            [.symbol .rightBracket])

def itemTokens : List Expr → List TokenKind
  | [] => []
  | item :: rest => placed .conditional item.rung item.bare ++ (separator rest ++ itemTokens rest)

def entryTokens : List (Expr × Expr) → List TokenKind
  | [] => []
  | (key, value) :: rest =>
      placed .conditional key.rung key.bare ++
        .symbol .colon :: (placed .conditional value.rung value.bare ++
          (separator rest ++ entryTokens rest))

def linkTokens : List (Comparison × Expr) → List TokenKind
  | [] => []
  | (op, operand) :: rest =>
      op.kinds ++ (placed .sum operand.rung operand.bare ++ linkTokens rest)

def clauseTokens : List Clause → List TokenKind
  | [] => []
  | .mk target iterable conditions :: rest =>
      .keyword .forWord :: (target.bare ++
        .keyword .inWord :: (placed .disjunction iterable.rung iterable.bare ++
          (conditionTokens conditions ++ clauseTokens rest)))

def conditionTokens : List Expr → List TokenKind
  | [] => []
  | condition :: rest =>
      .keyword .ifWord ::
        (placed .disjunction condition.rung condition.bare ++ conditionTokens rest)

def argumentTokens : List Argument → List TokenKind
  | [] => []
  | .positional value :: rest =>
      placed .conditional value.rung value.bare ++ (separator rest ++ argumentTokens rest)
  | .keyword name value :: rest =>
      .name name :: .symbol .assign :: (placed .conditional value.rung value.bare ++
        (separator rest ++ argumentTokens rest))

def boundTokens : Option Expr → List TokenKind
  | none => []
  | some bound => placed .conditional bound.rung bound.bare

def stepTokens : Option Expr → List TokenKind
  | none => []
  | some step => .symbol .colon :: placed .conditional step.rung step.bare

def Target.bare : Target → List TokenKind
  | .name name => [.name name]
  | .index object index =>
      placed .trailer object.rung object.bare ++
        .symbol .leftBracket ::
          (placed .conditional index.rung index.bare ++ [.symbol .rightBracket])
  | .unpack items =>
      .symbol .leftParen :: (targetTokens items ++ soleComma items ++ [.symbol .rightParen])

def targetTokens : List Target → List TokenKind
  | [] => []
  | item :: rest => item.bare ++ (separator rest ++ targetTokens rest)

end

def formsWord (text : String) : Bool :=
  match text.toList with
  | [] => false
  | first :: rest => Text.isNameStart first && rest.all Text.isNamePart

def isName (text : String) : Bool :=
  formsWord text && (Keyword.ofSpelling? text).isNone && !reservedWords.contains text

def namedLast : List Argument → Bool
  | [] => true
  | .positional _ :: rest => namedLast rest
  | .keyword .. :: rest => rest.all Argument.isKeyword

mutual

/-- Whether an expression has a written form: it has no floats and no negative integers, its names
are names, chains and comprehensions are not empty and named arguments stand last. -/
def Expr.isWritable : Expr → Bool
  | .none | .bool _ | .str _ => true
  | .int value => 0 ≤ value
  | .float _ => false
  | .name name => isName name
  | .list items | .tuple items => itemsWritable items
  | .dict entries => entriesWritable entries
  | .comprehension element clauses =>
      element.isWritable && !clauses.isEmpty && clausesWritable clauses
  | .unary _ operand => operand.isWritable
  | .binary _ left right | .logic _ left right => left.isWritable && right.isWritable
  | .compare left links => left.isWritable && !links.isEmpty && linksWritable links
  | .conditional test body orelse => test.isWritable && body.isWritable && orelse.isWritable
  | .call function arguments =>
      function.isWritable && namedLast arguments && argumentsWritable arguments
  | .method object name arguments =>
      object.isWritable && isName name && namedLast arguments && argumentsWritable arguments
  | .attribute object name => object.isWritable && isName name
  | .index object index => object.isWritable && index.isWritable
  | .slice object lower upper step =>
      object.isWritable && boundWritable lower && boundWritable upper && boundWritable step

def itemsWritable : List Expr → Bool
  | [] => true
  | item :: rest => item.isWritable && itemsWritable rest

def entriesWritable : List (Expr × Expr) → Bool
  | [] => true
  | (key, value) :: rest => key.isWritable && value.isWritable && entriesWritable rest

def linksWritable : List (Comparison × Expr) → Bool
  | [] => true
  | (_, operand) :: rest => operand.isWritable && linksWritable rest

def clausesWritable : List Clause → Bool
  | [] => true
  | .mk target iterable conditions :: rest =>
      target.isWritable && iterable.isWritable && itemsWritable conditions && clausesWritable rest

def argumentsWritable : List Argument → Bool
  | [] => true
  | .positional value :: rest => value.isWritable && argumentsWritable rest
  | .keyword name value :: rest => isName name && value.isWritable && argumentsWritable rest

def boundWritable : Option Expr → Bool
  | none => true
  | some bound => bound.isWritable

def Target.isWritable : Target → Bool
  | .name name => isName name
  | .index object index => object.isWritable && index.isWritable
  | .unpack items => targetsWritable items

def targetsWritable : List Target → Bool
  | [] => true
  | item :: rest => item.isWritable && targetsWritable rest

end

end Stepwise.Script
