import Stepwise.Json.Writer
import Stepwise.Script.Tree

/-!
A fully parenthesised listing of a syntax tree.

Every node is written as a head and its parts between brackets, so that the listing shows the tree
without any rule of precedence.
-/

namespace Stepwise.Script

def node (head : String) (parts : List String) : String :=
  "(" ++ " ".intercalate (head :: parts) ++ ")"

def UnaryOp.listing : UnaryOp → String
  | .negate => "neg"
  | .plus => "pos"
  | .not => "not"

def LogicOp.listing : LogicOp → String
  | .and => "and"
  | .or => "or"

mutual

def Expr.listing : Expr → String
  | .none => "None"
  | .bool true => "True"
  | .bool false => "False"
  | .int value => Number.integerText value.toInt
  | .float value => Number.Layout.script.text value ++ "f"
  | .str content => String.ofList (Json.quoted content)
  | .name name => name
  | .list items => node "list" (exprListings items)
  | .tuple items => node "tuple" (exprListings items)
  | .dict entries => node "dict" (entryListings entries)
  | .comprehension element clauses => node "comp" (element.listing :: clauseListings clauses)
  | .unary op operand => node op.listing [operand.listing]
  | .binary op left right => node op.spelling [left.listing, right.listing]
  | .compare left links => node "cmp" (left.listing :: linkListings links)
  | .logic op left right => node op.listing [left.listing, right.listing]
  | .conditional test body orelse => node "ifexp" [test.listing, body.listing, orelse.listing]
  | .call function arguments => node "call" (function.listing :: argumentListings arguments)
  | .method object name arguments =>
      node "method" (object.listing :: name :: argumentListings arguments)
  | .attribute object name => node "attr" [object.listing, name]
  | .index object index => node "index" [object.listing, index.listing]
  | .slice object lower upper step =>
      node "slice" [object.listing, optionalListing lower, optionalListing upper,
        optionalListing step]

def optionalListing : Option Expr → String
  | none => "-"
  | some expr => expr.listing

def exprListings : List Expr → List String
  | [] => []
  | expr :: rest => expr.listing :: exprListings rest

def entryListings : List (Expr × Expr) → List String
  | [] => []
  | (key, value) :: rest => ("[" ++ key.listing ++ " " ++ value.listing ++ "]") :: entryListings rest

def linkListings : List (Comparison × Expr) → List String
  | [] => []
  | (op, operand) :: rest =>
      ("[" ++ op.spelling ++ " " ++ operand.listing ++ "]") :: linkListings rest

def Target.listing : Target → String
  | .name name => name
  | .index object index => node "index" [object.listing, index.listing]
  | .unpack items => node "unpack" (targetListings items)

def targetListings : List Target → List String
  | [] => []
  | target :: rest => target.listing :: targetListings rest

def clauseListings : List Clause → List String
  | [] => []
  | .mk target iterable conditions :: rest =>
      ("[" ++ " ".intercalate (target.listing :: iterable.listing :: exprListings conditions) ++ "]")
        :: clauseListings rest

def argumentListings : List Argument → List String
  | [] => []
  | .positional value :: rest => value.listing :: argumentListings rest
  | .keyword name value :: rest => node "kw" [name, value.listing] :: argumentListings rest

end

def bracketedListing (parts : List String) : String := "[" ++ " ".intercalate parts ++ "]"

mutual

/-- The listing of a statement: its head carries the line, and a mark if the line is shared. -/
def Statement.listing : Statement → String
  | .mk line sameLine form =>
      let place := "@" ++ Number.integerText line ++ (if sameLine then "~" else "")
      let (head, parts) := form.listing
      node (head ++ place) parts

def Form.listing : Form → String × List String
  | .expr value => ("expr", [value.listing])
  | .assign targets value =>
      ("assign", [bracketedListing (targetListings targets), value.listing])
  | .augment target op value => ("aug", [op.spelling, target.listing, value.listing])
  | .branch test body orelse =>
      ("if", [test.listing, bracketedListing (statementListings body),
        bracketedListing (statementListings orelse)])
  | .whileLoop test body => ("while", [test.listing, bracketedListing (statementListings body)])
  | .forLoop target iterable body =>
      ("for", [target.listing, iterable.listing, bracketedListing (statementListings body)])
  | .breakLoop => ("break", [])
  | .continueLoop => ("continue", [])
  | .pass => ("pass", [])
  | .giveBack value => ("return", [optionalListing value])
  | .raise value => ("raise", [optionalListing value])
  | .assert test message => ("assert", [test.listing, optionalListing message])
  | .define id => ("def", [Number.integerText id])

def statementListings : List Statement → List String
  | [] => []
  | statement :: rest => statement.listing :: statementListings rest

end

def blockListing (body : List Statement) : String := bracketedListing (statementListings body)

end Stepwise.Script
