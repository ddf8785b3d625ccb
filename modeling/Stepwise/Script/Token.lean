/-!
The tokens of a script and their spellings.
-/

namespace Stepwise.Script

/-- The words with a meaning of their own. -/
inductive Keyword where
  | defWord | returnWord | ifWord | elifWord | elseWord | whileWord | forWord | inWord | notWord
  | andWord | orWord | isWord | trueWord | falseWord | noneWord | breakWord | continueWord | passWord
  | raiseWord | assertWord
  deriving Repr, DecidableEq

namespace Keyword

def all : List Keyword :=
  [.defWord, .returnWord, .ifWord, .elifWord, .elseWord, .whileWord, .forWord, .inWord, .notWord,
    .andWord, .orWord, .isWord, .trueWord, .falseWord, .noneWord, .breakWord, .continueWord,
    .passWord, .raiseWord, .assertWord]

def spelling : Keyword → String
  | .defWord => "def"
  | .returnWord => "return"
  | .ifWord => "if"
  | .elifWord => "elif"
  | .elseWord => "else"
  | .whileWord => "while"
  | .forWord => "for"
  | .inWord => "in"
  | .notWord => "not"
  | .andWord => "and"
  | .orWord => "or"
  | .isWord => "is"
  | .trueWord => "True"
  | .falseWord => "False"
  | .noneWord => "None"
  | .breakWord => "break"
  | .continueWord => "continue"
  | .passWord => "pass"
  | .raiseWord => "raise"
  | .assertWord => "assert"

def ofSpelling? (word : String) : Option Keyword :=
  all.find? fun keyword => keyword.spelling == word

end Keyword

def reservedWords : List String :=
  ["import", "from", "class", "lambda", "try", "except", "finally", "with", "as", "yield",
    "global", "nonlocal", "del", "async", "await"]

inductive Symbol where
  | leftParen | rightParen | leftBracket | rightBracket | leftBrace | rightBrace
  | comma | colon | semicolon | dot | arrow
  | plus | minus | star | doubleStar | slash | doubleSlash | percent
  | assign | plusAssign | minusAssign | starAssign | doubleStarAssign | slashAssign
  | doubleSlashAssign | percentAssign
  | equal | notEqual | less | lessEqual | greater | greaterEqual
  deriving Repr, DecidableEq

namespace Symbol

def all : List Symbol :=
  [.doubleStarAssign, .doubleSlashAssign,
    .arrow, .plusAssign, .minusAssign, .doubleStar, .starAssign, .doubleSlash, .slashAssign,
    .percentAssign, .equal, .notEqual, .lessEqual, .greaterEqual,
    .leftParen, .rightParen, .leftBracket, .rightBracket, .leftBrace, .rightBrace,
    .comma, .colon, .semicolon, .dot, .plus, .minus, .star, .slash, .percent, .assign, .less,
    .greater]

def spelling : Symbol → List Char
  | .leftParen => ['(']
  | .rightParen => [')']
  | .leftBracket => ['[']
  | .rightBracket => [']']
  | .leftBrace => ['\x7b']
  | .rightBrace => ['\x7d']
  | .comma => [',']
  | .colon => [':']
  | .semicolon => [';']
  | .dot => ['.']
  | .arrow => ['-', '>']
  | .plus => ['+']
  | .minus => ['-']
  | .star => ['*']
  | .doubleStar => ['*', '*']
  | .slash => ['/']
  | .doubleSlash => ['/', '/']
  | .percent => ['%']
  | .assign => ['=']
  | .plusAssign => ['+', '=']
  | .minusAssign => ['-', '=']
  | .starAssign => ['*', '=']
  | .doubleStarAssign => ['*', '*', '=']
  | .slashAssign => ['/', '=']
  | .doubleSlashAssign => ['/', '/', '=']
  | .percentAssign => ['%', '=']
  | .equal => ['=', '=']
  | .notEqual => ['!', '=']
  | .less => ['<']
  | .lessEqual => ['<', '=']
  | .greater => ['>']
  | .greaterEqual => ['>', '=']

theorem spelling_length_pos (symbol : Symbol) : 0 < symbol.spelling.length := by
  cases symbol <;> decide

def leading? (text : List Char) : Option Symbol :=
  all.find? fun symbol => symbol.spelling.isPrefixOf text

def opens : Symbol → Bool
  | .leftParen | .leftBracket | .leftBrace => true
  | _ => false

def closes : Symbol → Bool
  | .rightParen | .rightBracket | .rightBrace => true
  | _ => false

end Symbol

/-- What a token is. -/
inductive TokenKind where
  | name (word : String)
  | int (value : Int64)
  | float (value : Float)
  | str (content : String)
  | keyword (keyword : Keyword)
  /-- A reserved word without a meaning. -/
  | reserved (word : String)
  | symbol (symbol : Symbol)
  | newline
  | indent
  | dedent
  | endOfInput

namespace TokenKind

def isSymbol (expected : Symbol) : TokenKind → Bool
  | .symbol actual => actual == expected
  | _ => false

def isKeyword (expected : Keyword) : TokenKind → Bool
  | .keyword actual => actual == expected
  | _ => false

def isLayout : TokenKind → Bool
  | .newline | .indent | .dedent => true
  | _ => false

end TokenKind

/-- A place in a source text: lines count from one, columns count characters from zero. -/
structure Position where
  line : Nat
  column : Nat
  deriving Repr, DecidableEq

namespace Position

def start : Position := ⟨1, 0⟩

def after (position : Position) (c : Char) : Position :=
  if c == '\n' then ⟨position.line + 1, 0⟩ else ⟨position.line, position.column + 1⟩

def past (position : Position) (text : List Char) : Position := text.foldl after position

end Position

/-- A token and the place of its first character. -/
structure Token where
  kind : TokenKind
  position : Position

end Stepwise.Script
