/-!
The syntax tree of a script.

Every statement carries the line it starts on.  A statement that shares its line with the statement
or block header right before it is marked, because it is not reported on its own.
-/

namespace Stepwise.Script

inductive BinaryOp where
  | add | subtract | multiply | divide | floorDivide | modulo | power
  deriving Repr, DecidableEq

def BinaryOp.spelling : BinaryOp → String
  | .add => "+"
  | .subtract => "-"
  | .multiply => "*"
  | .divide => "/"
  | .floorDivide => "//"
  | .modulo => "%"
  | .power => "**"

inductive UnaryOp where
  | negate | plus | not
  deriving Repr, DecidableEq

inductive Comparison where
  | equal | notEqual | less | lessEqual | greater | greaterEqual
  | member | notMember | same | notSame
  deriving Repr, DecidableEq

def Comparison.spelling : Comparison → String
  | .equal => "=="
  | .notEqual => "!="
  | .less => "<"
  | .lessEqual => "<="
  | .greater => ">"
  | .greaterEqual => ">="
  | .member => "in"
  | .notMember => "not in"
  | .same => "is"
  | .notSame => "is not"

/-- Operators that skip their second operand when the first one decides. -/
inductive LogicOp where
  | and | or
  deriving Repr, DecidableEq

mutual

/-- Expressions. -/
inductive Expr where
  | none
  | bool (value : Bool)
  | int (value : Int64)
  | float (value : Float)
  | str (content : String)
  | name (name : String)
  | list (items : List Expr)
  | tuple (items : List Expr)
  | dict (entries : List (Expr × Expr))
  | comprehension (element : Expr) (clauses : List Clause)
  | unary (op : UnaryOp) (operand : Expr)
  | binary (op : BinaryOp) (left right : Expr)
  /-- A chain such as `a < b <= c`. -/
  | compare (left : Expr) (links : List (Comparison × Expr))
  | logic (op : LogicOp) (left right : Expr)
  | conditional (test body orelse : Expr)
  | call (function : Expr) (arguments : List Argument)
  | method (object : Expr) (name : String) (arguments : List Argument)
  | attribute (object : Expr) (name : String)
  | index (object index : Expr)
  | slice (object : Expr) (lower upper step : Option Expr)

inductive Target where
  | name (name : String)
  | index (object index : Expr)
  | unpack (items : List Target)

/-- One `for` clause of a comprehension with its conditions. -/
inductive Clause where
  | mk (target : Target) (iterable : Expr) (conditions : List Expr)

inductive Argument where
  | positional (value : Expr)
  | keyword (name : String) (value : Expr)

end

def Argument.isKeyword : Argument → Bool
  | .positional _ => false
  | .keyword .. => true

mutual

/-- A statement and its place. -/
inductive Statement where
  | mk (line : Nat) (sameLine : Bool) (form : Form)

/-- What a statement does. -/
inductive Form where
  | expr (value : Expr)
  /-- Every target receives the same value. -/
  | assign (targets : List Target) (value : Expr)
  | augment (target : Target) (op : BinaryOp) (value : Expr)
  | branch (test : Expr) (body orelse : List Statement)
  | whileLoop (test : Expr) (body : List Statement)
  | forLoop (target : Target) (iterable : Expr) (body : List Statement)
  | breakLoop
  | continueLoop
  | pass
  | giveBack (value : Option Expr)
  | raise (value : Option Expr)
  | assert (test : Expr) (message : Option Expr)
  /-- Binds the function with this number. -/
  | define (id : Nat)

end

namespace Statement

def line : Statement → Nat
  | .mk line _ _ => line

def sameLine : Statement → Bool
  | .mk _ sameLine _ => sameLine

def form : Statement → Form
  | .mk _ _ form => form

def onOwnLine : Statement → Statement
  | .mk line _ form => .mk line false form

end Statement

structure Parameter where
  name : String
  default : Option Expr

structure Definition where
  /-- The position of the function in the program's table. -/
  id : Nat
  name : String
  parameters : List Parameter
  body : List Statement
  firstLine : Nat
  /-- The last line that belongs to the body. -/
  lastLine : Nat
  /-- The names with a slot in a frame: the parameters, then every name that the body assigns, in
  order of appearance. -/
  locals : List String

/-- A program: its functions and its top-level statements. -/
structure Program where
  functions : List Definition
  body : List Statement

def addName (names : List String) (name : String) : List String :=
  if names.contains name then names else names ++ [name]

mutual

def Target.addNames (names : List String) : Target → List String
  | .name name => addName names name
  | .index .. => names
  | .unpack items => addTargetNames names items

def addTargetNames (names : List String) : List Target → List String
  | [] => names
  | target :: rest => addTargetNames (target.addNames names) rest

end

mutual

def Statement.addNames (names : List String) : Statement → List String
  | .mk _ _ form => form.addNames names

def Form.addNames (names : List String) : Form → List String
  | .assign targets _ => addTargetNames names targets
  | .augment target _ _ => target.addNames names
  | .branch _ body orelse => addBlockNames (addBlockNames names body) orelse
  | .whileLoop _ body => addBlockNames names body
  | .forLoop target _ body => addBlockNames (target.addNames names) body
  | _ => names

def addBlockNames (names : List String) : List Statement → List String
  | [] => names
  | statement :: rest => addBlockNames (statement.addNames names) rest

end

end Stepwise.Script
