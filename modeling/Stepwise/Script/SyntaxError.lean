import Stepwise.Number.Layout

/-!
Why a source text is not a program.
-/

namespace Stepwise.Script

/-- The ways in which a source text fails to be a program. -/
inductive SyntaxProblem where
  -- characters that form no token
  | brokenContinuation
  | unclosedBracket
  | unmatchedBracket (bracket : Char)
  | strayCharacter (c : Char)
  | misalignedIndent
  | badInteger (digits : String)
  | badFloat (digits : String)
  | bigInteger (digits : String)
  | badDecimal
  | markedString (mark : String)
  | openString
  -- tokens that form no statement
  | unexpectedIndent
  | unexpected
  | expected (what : String)
  | unsupportedWord (word : String)
  | looseElse
  | breakOutsideLoop
  | continueOutsideLoop
  | returnOutsideFunction
  | inlineDefinition
  | nestedDefinition
  | missingBlock (header : String) (line : Nat)
  | loopElse
  | variadicParameter
  | repeatedParameter (name : String)
  | parameterOrder
  | unpackedArgument
  | argumentOrder
  | setDisplay
  -- expressions that cannot be assigned to
  | assignsCall
  | assignsSlice
  | assignsAttribute
  | assignsExpression
  | augmentsSequence
  deriving Repr, DecidableEq

def SyntaxProblem.text : SyntaxProblem → String
  | .brokenContinuation => "unexpected character after line continuation character"
  | .unclosedBracket => "unexpected EOF: unclosed bracket"
  | .unmatchedBracket bracket => s!"unmatched '{bracket}'"
  | .strayCharacter c => s!"invalid character '{c}'"
  | .misalignedIndent => "unindent does not match any outer indentation level"
  | .badInteger digits => s!"invalid integer literal '{digits}'"
  | .badFloat digits => s!"invalid float literal '{digits}'"
  | .bigInteger digits => s!"integer literal '{digits}' is too large"
  | .badDecimal => "invalid decimal literal"
  | .markedString mark => s!"string prefix '{mark}' is not supported"
  | .openString => "unterminated string literal"
  | .unexpectedIndent => "unexpected indent"
  | .unexpected => "invalid syntax"
  | .expected what => s!"expected {what}"
  | .unsupportedWord word => s!"'{word}' is not supported"
  | .looseElse => "invalid syntax: 'else'/'elif' without a matching 'if'"
  | .breakOutsideLoop => "'break' outside loop"
  | .continueOutsideLoop => "'continue' not properly in loop"
  | .returnOutsideFunction => "'return' outside function"
  | .inlineDefinition => "function definitions must start on their own line"
  | .nestedDefinition => "nested function definitions are not supported"
  | .missingBlock header line =>
      s!"expected an indented block after '{header}' statement on line {line}"
  | .loopElse => "'else' clauses on loops are not supported"
  | .variadicParameter => "variadic parameters are not supported"
  | .repeatedParameter name => s!"duplicate argument '{name}' in function definition"
  | .parameterOrder => "non-default argument follows default argument"
  | .unpackedArgument => "argument unpacking is not supported"
  | .argumentOrder => "positional argument follows keyword argument"
  | .setDisplay => "set literals are not supported"
  | .assignsCall => "cannot assign to function call"
  | .assignsSlice => "slice assignment is not supported"
  | .assignsAttribute => "attribute assignment is not supported"
  | .assignsExpression => "cannot assign to expression"
  | .augmentsSequence => "illegal expression for augmented assignment"

structure SyntaxError where
  line : Nat
  problem : SyntaxProblem
  deriving Repr, DecidableEq

def SyntaxError.message (error : SyntaxError) : String :=
  s!"{error.problem.text} (line {error.line})"

end Stepwise.Script
