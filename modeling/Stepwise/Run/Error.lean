import Stepwise.Number.Layout

/-!
What can go wrong while a script runs.

Each error is a cause.  `kind` is the name of its class and `message` its wording, which may be
empty only for an error that the script raised itself.
-/

namespace Stepwise.Run

inductive DivisionProblem where
  | division
  | intFloorDivision
  | intModulo
  | floatDivision
  | floatFloorDivision
  | floatModulo
  | negativePower
  deriving Repr, DecidableEq

def DivisionProblem.text : DivisionProblem → String
  | .division => "division by zero"
  | .intFloorDivision => "integer division or modulo by zero"
  | .intModulo => "integer modulo by zero"
  | .floatDivision => "float division by zero"
  | .floatFloorDivision => "float floor division by zero"
  | .floatModulo => "float modulo by zero"
  | .negativePower => "0.0 cannot be raised to a negative power"

/-- Values of a type that an operation does not take.  Types are given by their names. -/
inductive TypeProblem where
  -- operators
  | unary (sign : String) (operand : String)
  | magnitude (operand : String)
  | concatenation (left right : String)
  | binary (op left right : String)
  | order (op left right : String)
  | textMember (item : String)
  | noMembers (container : String)
  -- positions
  | textIndex (index : String)
  | sequenceIndex (noun index : String)
  | notSubscriptable (container : String)
  | noItemAssignment (container : String)
  | sliceBound
  -- iteration and keys
  | notIterable (value : String)
  | unhashable (value : String)
  | notUnpackable (value : String)
  -- calls
  | notCallable (value : String)
  | tooManyArguments (function : String) (required parameters given : Nat)
  | unexpectedKeyword (function name : String)
  | repeatedArgument (function name : String)
  | missingArguments (function : String) (names : List String)
  | argumentCount (function : String) (least : Nat) (most : Option Nat) (given : Nat)
  | notInteger (value : String)
  | notText (function value : String)
  | notOptionalText (parameter value : String)
  -- single functions
  | noLength (value : String)
  | sumsText
  | explicitBase
  | notConvertible (function value : String)
  | notReversible (value : String)
  | notIterator (value : String)
  | notCharacter (value : String)
  | notOneCharacter (length : Nat)
  | noRounding (value : String)
  | joinedItem (position : Nat) (value : String)
  | updateElement (position : Nat)
  | notException
  deriving Repr, DecidableEq

def counted (n : Nat) (noun : String) : String :=
  let ending := if n == 1 then "" else "s"
  s!"{Number.integerText n} {noun}{ending}"

def conjunction : List String → String
  | [] => ""
  | [one] => one
  | [first, second] => s!"{first} and {second}"
  | names => ", ".intercalate names.dropLast ++ ", and " ++ names.getLastD ""

/-- The wording for a number of arguments that a builtin does not take. -/
def argumentCountText (function : String) (least : Nat) (most : Option Nat) (given : Nat) :
    String :=
  let count := Number.integerText given
  if most == some 1 && least == 1 then
    s!"{function}() takes exactly one argument ({count} given)"
  else if most == some 0 && least == 0 then
    s!"{function}() takes no arguments ({count} given)"
  else if given < least then
    let bound := counted least "argument"
    s!"{function} expected at least {bound}, got {count}"
  else
    let bound := counted (most.getD 0) "argument"
    s!"{function} expected at most {bound}, got {count}"

def TypeProblem.text : TypeProblem → String
  | .unary sign operand => s!"bad operand type for unary {sign}: '{operand}'"
  | .magnitude operand => s!"bad operand type for abs(): '{operand}'"
  | .concatenation left right => s!"can only concatenate {left} (not \"{right}\") to {left}"
  | .binary op left right => s!"unsupported operand type(s) for {op}: '{left}' and '{right}'"
  | .order op left right =>
      s!"'{op}' not supported between instances of '{left}' and '{right}'"
  | .textMember item => s!"'in <string>' requires string as left operand, not {item}"
  | .noMembers container => s!"argument of type '{container}' is not iterable"
  | .textIndex index => s!"string indices must be integers, not '{index}'"
  | .sequenceIndex noun index => s!"{noun} indices must be integers or slices, not {index}"
  | .notSubscriptable container => s!"'{container}' object is not subscriptable"
  | .noItemAssignment container => s!"'{container}' object does not support item assignment"
  | .sliceBound => "slice indices must be integers or None or have an __index__ method"
  | .notIterable value => s!"'{value}' object is not iterable"
  | .unhashable value => s!"unhashable type: '{value}'"
  | .notUnpackable value => s!"cannot unpack non-iterable {value} object"
  | .notCallable value => s!"'{value}' object is not callable"
  | .tooManyArguments function required parameters given =>
      let expected :=
        if required == parameters then counted parameters "positional argument"
        else
          let range := Number.integerText required ++ " to " ++ Number.integerText parameters
          s!"from {range} positional arguments"
      let verb := if given == 1 then "was" else "were"
      s!"{function}() takes {expected} but {Number.integerText given} {verb} given"
  | .unexpectedKeyword function name =>
      s!"{function}() got an unexpected keyword argument '{name}'"
  | .repeatedArgument function name => s!"{function}() got multiple values for argument '{name}'"
  | .missingArguments function names =>
      let count := counted names.length "required positional argument"
      let list := conjunction (names.map fun name => "'" ++ name ++ "'")
      s!"{function}() missing {count}: {list}"
  | .argumentCount function least most given => argumentCountText function least most given
  | .notInteger value => s!"'{value}' object cannot be interpreted as an integer"
  | .notText function value => s!"{function}() argument must be str, not {value}"
  | .notOptionalText parameter value => s!"{parameter} must be None or a string, not {value}"
  | .noLength value => s!"object of type '{value}' has no len()"
  | .sumsText => "sum() can't sum strings [use ''.join(seq) instead]"
  | .explicitBase => "int() can't convert non-string with explicit base"
  | .notConvertible function value =>
      s!"{function}() argument must be a string or a real number, not '{value}'"
  | .notReversible value => s!"'{value}' object is not reversible"
  | .notIterator value => s!"'{value}' object is not an iterator"
  | .notCharacter value => s!"ord() expected string of length 1, but {value} found"
  | .notOneCharacter length =>
      s!"ord() expected a character, but string of length {Number.integerText length} found"
  | .noRounding value => s!"type {value} doesn't define __round__ method"
  | .joinedItem position value =>
      s!"sequence item {Number.integerText position}: expected str instance, {value} found"
  | .updateElement position =>
      let element := Number.integerText position
      s!"cannot convert dictionary update sequence element #{element} to a sequence"
  | .notException => "exceptions must derive from BaseException"

/-- Values of the right type that an operation does not take.  Values are given by their texts. -/
inductive ValueProblem where
  | fractionalPower
  | zeroSliceStep
  | zeroRangeStep
  | notANumberToInteger
  | badCodePoint
  | emptyIterable (function : String)
  | removedMissing
  | notInList (value : String)
  | emptySeparator
  | badIntegerText (base : Int) (value : String)
  | badBase
  | badFloatText (value : String)
  | tooManyToUnpack (expected : Nat)
  | notEnoughToUnpack (expected given : Nat)
  | updateLength (position length : Nat)
  deriving Repr, DecidableEq

def ValueProblem.text : ValueProblem → String
  | .fractionalPower => "negative number cannot be raised to a fractional power"
  | .zeroSliceStep => "slice step cannot be zero"
  | .zeroRangeStep => "range() arg 3 must not be zero"
  | .notANumberToInteger => "cannot convert float NaN to integer"
  | .badCodePoint => "chr() arg not in range(0x110000)"
  | .emptyIterable function => s!"{function}() iterable argument is empty"
  | .removedMissing => "list.remove(x): x not in list"
  | .notInList value => s!"{value} is not in list"
  | .emptySeparator => "empty separator"
  | .badIntegerText base value =>
      s!"invalid literal for int() with base {Number.integerText base}: {value}"
  | .badBase => "int() base must be >= 2 and <= 36, or 0"
  | .badFloatText value => s!"could not convert string to float: {value}"
  | .tooManyToUnpack expected =>
      s!"too many values to unpack (expected {Number.integerText expected})"
  | .notEnoughToUnpack expected given =>
      let counts := Number.integerText expected ++ ", got " ++ Number.integerText given
      s!"not enough values to unpack (expected {counts})"
  | .updateLength position length =>
      let element := Number.integerText position ++ " has length " ++ Number.integerText length
      s!"dictionary update sequence element #{element}; 2 is required"

inductive IndexProblem where
  | list | tuple | string | range | assignment | emptyPop | pop
  deriving Repr, DecidableEq

def IndexProblem.text : IndexProblem → String
  | .list => "list index out of range"
  | .tuple => "tuple index out of range"
  | .string => "string index out of range"
  | .range => "range object index out of range"
  | .assignment => "list assignment index out of range"
  | .emptyPop => "pop from empty list"
  | .pop => "pop index out of range"

inductive InternalProblem where
  | foreignFunction (name : String) (home here : Nat)
  | unknownFunction (id : Nat)
  | notLocal (name function : String)
  | missingSlot (name : String)
  | augmentsSequence
  deriving Repr, DecidableEq

def InternalProblem.text : InternalProblem → String
  | .foreignFunction name home here =>
      let places :=
        Number.integerText home ++ " but was called in namespace " ++ Number.integerText here
      s!"function '{name}' belongs to namespace {places}"
  | .unknownFunction id => s!"unknown function {Number.integerText id}"
  | .notLocal name function => s!"'{name}' is not a local of '{function}'"
  | .missingSlot name => s!"missing slot for '{name}'"
  | .augmentsSequence => "augmented assignment to a tuple target"

/-- The errors that end a run. -/
inductive RuntimeError where
  | zeroDivision (problem : DivisionProblem)
  | type (problem : TypeProblem)
  | value (problem : ValueProblem)
  | index (problem : IndexProblem)
  | name (name : String)
  | unboundLocal (name : String)
  /-- A missing key, given by its text. -/
  | key (key : String)
  | attribute (typeName name : String)
  | overflow
  | recursionLimit (limit : Nat)
  | stopIteration
  | assertion (message : Option String)
  /-- Raised by a statement of the script, with the name of a class and a message. -/
  | raised (kind message : String)
  | internal (problem : InternalProblem)
  deriving Repr, DecidableEq

namespace RuntimeError

def kind : RuntimeError → String
  | .zeroDivision _ => "ZeroDivisionError"
  | .type _ => "TypeError"
  | .value _ => "ValueError"
  | .index _ => "IndexError"
  | .name _ => "NameError"
  | .unboundLocal _ => "UnboundLocalError"
  | .key _ => "KeyError"
  | .attribute .. => "AttributeError"
  | .overflow => "OverflowError"
  | .recursionLimit _ => "RecursionError"
  | .stopIteration => "StopIteration"
  | .assertion _ => "AssertionError"
  | .raised className _ => className
  | .internal _ => "InternalError"

def plainKinds : List String := ["TypeError", "ValueError", "IndexError", "ZeroDivisionError"]

def message : RuntimeError → String
  | .zeroDivision problem => problem.text
  | .type problem => problem.text
  | .value problem => problem.text
  | .index problem => problem.text
  | .name missing => s!"name '{missing}' is not defined"
  | .unboundLocal missing =>
      s!"cannot access local variable '{missing}' where it is not associated with a value"
  | .key text => text
  | .attribute typeName missing => s!"'{typeName}' object has no attribute '{missing}'"
  | .overflow => "integer overflow"
  | .recursionLimit limit =>
      s!"maximum recursion depth exceeded (limit {Number.integerText limit})"
  | .stopIteration => "StopIteration"
  | .assertion text => text.getD "AssertionError"
  | .raised className text =>
      if text.isEmpty && !plainKinds.contains className then className else text
  | .internal problem => s!"internal error: {problem.text}"

end RuntimeError

end Stepwise.Run
