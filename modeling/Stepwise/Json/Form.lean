import Stepwise.Number.Reading
import Stepwise.Text.Letter

/-!
The written form of interchange values.

A `Form` keeps numbers as their digits and strings as their pieces, so that a text can be checked
against the grammar without deciding what its numbers and escapes stand for.
-/

namespace Stepwise.Json

/-- A piece of a string: a character, or the four hexadecimal digits of an escape. -/
inductive Piece where
  | char (c : Char)
  | unit (value : Nat)
  deriving Repr, DecidableEq

structure NumberForm where
  negative : Bool
  whole : List Char
  fraction : List Char
  /-- The exponent, if one is written. -/
  exponent : Option Int
  deriving Repr, DecidableEq

/-- A value as it is written. -/
inductive Form where
  | null
  | bool (value : Bool)
  | number (form : NumberForm)
  | str (pieces : List Piece)
  | array (items : List Form)
  | object (members : List (List Piece × Form))

namespace Form

def isSpace (c : Char) : Bool := c == ' ' || c == '\n' || c == '\t' || c == '\r'

def skipSpace (text : List Char) : List Char := text.dropWhile isSpace

def hexValue? (c : Char) : Option Nat :=
  (Number.digitValue? c).bind fun digit => if digit < 16 then some digit else none

/-- The pieces of a string after its opening quote, and the text after its closing one. -/
def readPieces : List Char → Option (List Piece × List Char)
  | [] => none
  | '"' :: rest => some ([], rest)
  | '\\' :: 'u' :: a :: b :: c :: d :: rest => do
      let a ← hexValue? a
      let b ← hexValue? b
      let c ← hexValue? c
      let d ← hexValue? d
      let (pieces, rest) ← readPieces rest
      return (.unit (((a * 16 + b) * 16 + c) * 16 + d) :: pieces, rest)
  | '\\' :: mark :: rest => do
      let c ← match mark with
        | '"' => some '"'
        | '\\' => some '\\'
        | '/' => some '/'
        | 'b' => some '\x08'
        | 'f' => some '\x0c'
        | 'n' => some '\n'
        | 'r' => some '\r'
        | 't' => some '\t'
        | _ => none
      let (pieces, rest) ← readPieces rest
      return (.char c :: pieces, rest)
  | c :: rest => do
      guard (32 ≤ c.toNat && c != '\\')
      let (pieces, rest) ← readPieces rest
      return (.char c :: pieces, rest)

def readDigits (text : List Char) : Option (List Char × List Char) :=
  match text.takeWhile Text.isDigit with
  | [] => none
  | found => some (found, text.dropWhile Text.isDigit)

def readExponent (text : List Char) : Option (Option Int × List Char) :=
  match text with
  | mark :: rest =>
      if mark == 'e' || mark == 'E' then do
        let (negative, rest) := match rest with
          | '+' :: more => (false, more)
          | '-' :: more => (true, more)
          | more => (false, more)
        let (found, rest) ← readDigits rest
        let size ← Number.natural? 10 found
        return (some (if negative then -(size : Int) else size), rest)
      else some (none, text)
  | [] => some (none, text)

def readNumber (text : List Char) : Option (NumberForm × List Char) := do
  let (negative, text) := match text with
    | '-' :: rest => (true, rest)
    | rest => (false, rest)
  let (whole, rest) ← readDigits text
  guard (whole.length == 1 || whole.head? != some '0')
  let (fraction, rest) ← match rest with
    | '.' :: more => readDigits more
    | more => some ([], more)
  let (exponent, rest) ← readExponent rest
  return (⟨negative, whole, fraction, exponent⟩, rest)

def expectWord (word text : List Char) : Option (List Char) :=
  if word.isPrefixOf text then some (text.drop word.length) else none

mutual

def readValue : Nat → List Char → Option (Form × List Char)
  | 0, _ => none
  | fuel + 1, text =>
      match skipSpace text with
      | [] => none
      | c :: rest =>
          match c with
          | 'n' => do return (.null, ← expectWord ['u', 'l', 'l'] rest)
          | 't' => do return (.bool true, ← expectWord ['r', 'u', 'e'] rest)
          | 'f' => do return (.bool false, ← expectWord ['a', 'l', 's', 'e'] rest)
          | '"' => do
              let (pieces, rest) ← readPieces rest
              return (.str pieces, rest)
          | '[' =>
              match skipSpace rest with
              | ']' :: rest => some (.array [], rest)
              | rest => do
                  let (items, rest) ← readItems fuel rest
                  return (.array items, rest)
          | '\x7b' =>
              match skipSpace rest with
              | '\x7d' :: rest => some (.object [], rest)
              | rest => do
                  let (members, rest) ← readMembers fuel rest
                  return (.object members, rest)
          | c => do
              let (form, rest) ← readNumber (c :: rest)
              return (.number form, rest)

/-- The items of an array up to its closing bracket; there is at least one. -/
def readItems : Nat → List Char → Option (List Form × List Char)
  | 0, _ => none
  | fuel + 1, text => do
      let (item, rest) ← readValue fuel text
      match skipSpace rest with
      | ',' :: rest =>
          let (items, rest) ← readItems fuel rest
          return (item :: items, rest)
      | ']' :: rest => return ([item], rest)
      | _ => none

/-- The members of an object up to its closing brace; there is at least one. -/
def readMembers : Nat → List Char → Option (List (List Piece × Form) × List Char)
  | 0, _ => none
  | fuel + 1, text =>
      match skipSpace text with
      | '"' :: rest => do
          let (key, rest) ← readPieces rest
          match skipSpace rest with
          | ':' :: rest =>
              let (value, rest) ← readValue fuel rest
              match skipSpace rest with
              | ',' :: rest =>
                  let (members, rest) ← readMembers fuel rest
                  return ((key, value) :: members, rest)
              | '\x7d' :: rest => return ([(key, value)], rest)
              | _ => none
          | _ => none
      | _ => none

end

/-- The form that a whole text is written in.  Every value and every item takes a character, so the
length of the text bounds the nesting. -/
def ofText? (text : String) : Option Form := do
  let characters := text.toList
  let (form, rest) ← readValue (2 * characters.length + 2) characters
  guard (skipSpace rest).isEmpty
  return form

end Form

end Stepwise.Json
