import Stepwise.Number.Bounded
import Stepwise.Number.Reading
import Stepwise.Script.SyntaxError
import Stepwise.Script.Token
import Stepwise.Text.Letter

/-!
Reading the tokens of a source text.

A lexeme is read from the front of the text and says how many characters it takes.  Between
lexemes, `scan` keeps the open indents, the number of open brackets, and whether a logical line
has been started.  Line ends inside brackets, blank lines and comments leave no token.
-/

namespace Stepwise.Script

/-- A token at the front of a text, and how many characters it takes. -/
structure Lexeme where
  kind : TokenKind
  length : Nat
  length_pos : 0 < length

namespace Lexeme

/-- The written form of a decimal number: its characters without underscores, whether it has a
point or an exponent, and the number of characters read. -/
structure DecimalForm where
  text : List Char
  fractional : Bool
  length : Nat

/-- One more character of the form, taken from `width` characters of the source. -/
def DecimalForm.cons (c : Char) (form : DecimalForm) : DecimalForm :=
  { form with text := c :: form.text, length := form.length + 1 }

/-- The longest decimal form at the front of a text.  There is one point at most, and none after an
exponent mark; `fractional` says whether either has been seen. -/
def decimalForm (fractional : Bool) : List Char → DecimalForm
  | [] => ⟨[], fractional, 0⟩
  | c :: rest =>
      if Text.isDigit c then (decimalForm fractional rest).cons c
      else if c == '_' then
        let form := decimalForm fractional rest
        { form with length := form.length + 1 }
      else if c == '.' && !fractional then (decimalForm true rest).cons c
      else if c == 'e' || c == 'E' then
        match rest with
        | sign :: more =>
            if sign == '+' || sign == '-' then ((decimalForm true more).cons sign).cons c
            else (decimalForm true (sign :: more)).cons c
        | [] => (decimalForm true []).cons c
      else ⟨[], fractional, 0⟩

def baseOf? (c : Char) : Option Nat :=
  if c == 'x' || c == 'X' then some 16
  else if c == 'o' || c == 'O' then some 8
  else if c == 'b' || c == 'B' then some 2
  else none

/-- An integer in another base, after the zero and the letter that select the base. -/
def readBased (base : Nat) (text : List Char) : Except SyntaxProblem Lexeme :=
  let written := text.takeWhile fun c => Text.isBasicLetter c || Text.isDigit c || c == '_'
  let body := written.filter (· != '_')
  match (Number.natural? base body).bind fun n => Number.bounded? n with
  | some value => .ok ⟨.int value, written.length + 2, Nat.succ_pos _⟩
  | none => .error (.badInteger (String.ofList body))

def readDecimal (text : List Char) : Except SyntaxProblem Lexeme :=
  let form := decimalForm false text
  let joined := match text.drop form.length with
    | next :: _ => Text.isNameStart next
    | [] => false
  if joined then .error .badDecimal
  else if form.fractional then
    match Number.decimal? form.text with
    | some decimal => .ok ⟨.float decimal.toFloat, max 1 form.length, Nat.le_max_left 1 _⟩
    | none => .error (.badFloat (String.ofList form.text))
  else
    match (Number.natural? 10 form.text).bind fun n => Number.bounded? n with
    | some value => .ok ⟨.int value, max 1 form.length, Nat.le_max_left 1 _⟩
    | none => .error (.bigInteger (String.ofList form.text))

def readNumber : List Char → Except SyntaxProblem Lexeme
  | '0' :: mark :: rest =>
      match baseOf? mark with
      | some base => readBased base rest
      | none => readDecimal ('0' :: mark :: rest)
  | text => readDecimal text

def ofWord (word : String) : TokenKind :=
  match Keyword.ofSpelling? word with
  | some keyword => .keyword keyword
  | none => if reservedWords.contains word then .reserved word else .name word

/-- A name, keyword or reserved word.  It must not touch a string. -/
def readWord (text : List Char) : Except SyntaxProblem Lexeme :=
  let word := text.takeWhile Text.isNamePart
  let quoted := match text.dropWhile Text.isNamePart with
    | next :: _ => next == '\'' || next == '"'
    | [] => false
  if quoted then .error (.markedString (String.ofList word))
  else .ok ⟨ofWord (String.ofList word), max 1 word.length, by omega⟩

def unescape (c : Char) : List Char :=
  match c with
  | 'n' => ['\n']
  | 't' => ['\t']
  | 'r' => ['\r']
  | '0' => ['\x00']
  | '\\' => ['\\']
  | '\'' => ['\'']
  | '"' => ['"']
  | '\n' => []
  | other => ['\\', other]

/-- The content of a string after its opening quotes, and the number of characters up to and
including the closing ones.  Only a string in triple quotes goes over line ends. -/
def stringBody (quote : Char) (triple : Bool) : List Char → Option (List Char × Nat)
  | [] => none
  | c :: rest =>
      if c == quote then
        if !triple then some ([], 1)
        else if [quote, quote].isPrefixOf rest then some ([], 3)
        else (stringBody quote triple rest).map fun body => (c :: body.1, body.2 + 1)
      else if c == '\n' && !triple then none
      else if c == '\\' then
        match rest with
        | [] => none
        | escaped :: more =>
            (stringBody quote triple more).map fun body => (unescape escaped ++ body.1, body.2 + 2)
      else (stringBody quote triple rest).map fun body => (c :: body.1, body.2 + 1)

def readString (quote : Char) (rest : List Char) : Except SyntaxProblem Lexeme :=
  let triple := [quote, quote].isPrefixOf rest
  let opening := if triple then 2 else 0
  match stringBody quote triple (rest.drop opening) with
  | some (content, length) =>
      .ok ⟨.str (String.ofList content), 1 + opening + length, by omega⟩
  | none => .error .openString

/-- The lexeme at the front of a text that starts with `c`. -/
def read (c : Char) (rest : List Char) : Except SyntaxProblem Lexeme :=
  let pointed := c == '.' && match rest with
    | next :: _ => Text.isDigit next
    | [] => false
  if Text.isDigit c || pointed then readNumber (c :: rest)
  else if Text.isNameStart c then readWord (c :: rest)
  else if c == '\'' || c == '"' then readString c rest
  else
    match Symbol.leading? (c :: rest) with
    | some symbol => .ok ⟨.symbol symbol, symbol.spelling.length, symbol.spelling_length_pos⟩
    | none => .error (.strayCharacter c)

end Lexeme

structure LineState where
  /-- The indents that are open, innermost first; the outermost one is zero and not listed. -/
  indents : List Nat
  /-- How many brackets are open. -/
  depth : Nat
  /-- Whether the logical line has a token yet. -/
  started : Bool

namespace LineState

def initial : LineState := ⟨[], 0, false⟩

/-- The token that ends the logical line, if it has been started. -/
def lineEnd (state : LineState) (position : Position) : List Token :=
  if state.started then [⟨.newline, position⟩] else []

def closeAll (state : LineState) (line : Nat) : List Token :=
  state.indents.map fun _ => ⟨.dedent, ⟨line, 0⟩⟩

/-- The tokens for a line indented by `width`, and the indents that are open then. -/
def indentTo (state : LineState) (width line : Nat) :
    Except SyntaxError (List Token × LineState) :=
  let current := state.indents.headD 0
  if current < width then
    .ok ([⟨.indent, ⟨line, 0⟩⟩], { state with indents := width :: state.indents })
  else
    let closed := state.indents.takeWhile (width < ·)
    let kept := state.indents.dropWhile (width < ·)
    if kept.headD 0 == width then
      .ok (closed.map fun _ => ⟨.dedent, ⟨line, 0⟩⟩, { state with indents := kept })
    else .error ⟨line, .misalignedIndent⟩

def accept (state : LineState) (line : Nat) : TokenKind → Except SyntaxError LineState
  | .symbol symbol =>
      if symbol.opens then .ok { state with depth := state.depth + 1, started := true }
      else if symbol.closes then
        match state.depth with
        | 0 => .error ⟨line, .unmatchedBracket (symbol.spelling.headD ' ')⟩
        | depth + 1 => .ok { state with depth := depth, started := true }
      else .ok { state with started := true }
  | _ => .ok { state with started := true }

def finish (state : LineState) (position : Position) : Except SyntaxError (List Token) :=
  if 0 < state.depth then .error ⟨position.line, .unclosedBracket⟩
  else
    .ok (state.lineEnd position ++ state.closeAll position.line ++ [⟨.endOfInput, position⟩])

end LineState

/-- The width of an indent: a tab goes to the next multiple of eight, and carriage returns and form
feeds have no width. -/
def indentWidth (width : Nat) : List Char → Nat
  | ' ' :: rest => indentWidth (width + 1) rest
  | '\t' :: rest => indentWidth ((width / 8 + 1) * 8) rest
  | _ :: rest => indentWidth width rest
  | [] => width

def isLineBlank (c : Char) : Bool := c == ' ' || c == '\t' || c == '\r' || c == '\x0c'

def isInLine (c : Char) : Bool := c != '\n'

/-- The tokens of the text from `position` on.  With `fresh` set, the position is at the start of a
line whose indent has not been measured yet. -/
def scan (state : LineState) (fresh : Bool) (position : Position) (text : List Char) :
    Except SyntaxError (List Token) :=
  if fresh then
    let blanks := text.takeWhile isLineBlank
    let here := position.past blanks
    match _found : text.dropWhile isLineBlank with
    | [] => state.finish here
    | c :: rest =>
        if c == '\n' then scan state true (here.after c) rest
        else if c == '#' then
          scan state true (here.past (c :: rest.takeWhile isInLine)) (rest.dropWhile isInLine)
        else do
          let (tokens, state) ← state.indentTo (indentWidth 0 blanks) here.line
          return tokens ++ (← scan state false here (c :: rest))
  else
    match text with
    | [] => state.finish position
    | c :: rest =>
        if isLineBlank c then scan state false (position.after c) rest
        else if c == '#' then
          scan state false (position.past (c :: rest.takeWhile isInLine))
            (rest.dropWhile isInLine)
        else if c == '\\' then
          match _found : rest.dropWhile (· == '\r') with
          | '\n' :: more => scan state false ⟨position.line + 1, 0⟩ more
          | _ => .error ⟨position.line, .brokenContinuation⟩
        else if c == '\n' then
          if state.depth = 0 then do
            return state.lineEnd position ++
              (← scan { state with started := false } true (position.after c) rest)
          else scan state false (position.after c) rest
        else
          match Lexeme.read c rest with
          | .error problem => .error ⟨position.line, problem⟩
          | .ok lexeme => do
              let state ← state.accept position.line lexeme.kind
              let rest ← scan state false (position.past ((c :: rest).take lexeme.length))
                ((c :: rest).drop lexeme.length)
              return ⟨lexeme.kind, position⟩ :: rest
termination_by 2 * text.length + fresh.toNat
decreasing_by
  all_goals simp_wf
  all_goals try
    have afterBlanks := (List.dropWhile_sublist (p := isLineBlank) (l := text)).length_le
    simp only [_found, List.length_cons] at afterBlanks
  all_goals try have afterComment := (List.dropWhile_sublist (p := isInLine) (l := rest)).length_le
  all_goals try
    have afterReturns := (List.dropWhile_sublist (p := (· == '\r')) (l := rest)).length_le
    simp only [_found, List.length_cons] at afterReturns
  all_goals try subst fresh
  all_goals try simp only [Bool.toNat_true]
  all_goals try have := lexeme.length_pos
  all_goals omega

/-- The tokens of a source text; the last one marks its end. -/
def tokenize (source : String) : Except SyntaxError (List Token) :=
  scan .initial true .start source.toList

end Stepwise.Script
