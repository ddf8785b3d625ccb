import Stepwise.Json.Reader

/-!
Requests: a source, the name of a function in it and an argument.

A request is an object with these three members, or an array of them.  Other members only have to be
well formed.
-/

namespace Stepwise.Exchange

open Json

/-- A source, the name of a function in it, and an argument. -/
structure Request where
  code : String
  functionName : String
  argument : Json

inductive RequestProblem where
  /-- It does not follow the grammar. -/
  | malformed
  /-- It is neither an object nor an array of three. -/
  | shape
  | memberName
  | missing (member : String)
  | repeated (member : String)
  /-- A member is of the wrong type or stands for nothing. -/
  | badMember (member : String)
  deriving Repr, DecidableEq

/-- How a reader of requests words what is wrong with a text.  The words are the reader's own, and no
response but that to a text that is no request depends on them. -/
abbrev Wording := String → RequestProblem → String

def Wording.plain : Wording := fun _ problem =>
  match problem with
  | .malformed => "malformed text"
  | .shape => "expected an object or an array of three"
  | .memberName => "malformed member name"
  | .missing wanted => s!"missing field '{wanted}'"
  | .repeated wanted => s!"duplicate field '{wanted}'"
  | .badMember wanted => s!"invalid field '{wanted}'"

namespace Request

def codeMember : String := "code"

def functionMember : String := "functionName"

def argumentMember : String := "parameterValue"

/-- The levels of arrays and objects that a member of a request may have. -/
def memberLevels : Nat := levelLimit - 1

def textOf? : Form → Option String
  | .str pieces => (textOfPieces? pieces).map String.ofList
  | _ => none

def named? : List (List Piece × Form) → Option (List (String × Form))
  | [] => some []
  | (name, form) :: rest => do
      let name ← textOfPieces? name
      return (String.ofList name, form) :: (← named? rest)

def only (name : String) (members : List (String × Form)) : Except RequestProblem Form :=
  match members.filter fun member => member.1 == name with
  | [] => .error (.missing name)
  | [member] => .ok member.2
  | _ => .error (.repeated name)

def ofForms (code functionName argument : Form) : Except RequestProblem Request := do
  let code ← match textOf? code with
    | some text => pure text
    | none => throw (.badMember codeMember)
  let functionName ← match textOf? functionName with
    | some text => pure text
    | none => throw (.badMember functionMember)
  match argument.value? memberLevels with
  | some argument => return ⟨code, functionName, argument⟩
  | none => throw (.badMember argumentMember)

def ofForm : Form → Except RequestProblem Request
  | .object members =>
      match named? members with
      | none => .error .memberName
      | some members => do
          ofForms (← only codeMember members) (← only functionMember members)
            (← only argumentMember members)
  | .array [code, functionName, argument] => ofForms code functionName argument
  | _ => .error .shape

def ofText (text : String) : Except RequestProblem Request :=
  match Form.ofText? text with
  | none => .error .malformed
  | some form => ofForm form

end Request

end Stepwise.Exchange
