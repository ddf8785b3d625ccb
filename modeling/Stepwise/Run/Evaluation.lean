import Stepwise.Run.Callback
import Stepwise.Run.Names
import Stepwise.Run.Operators
import Stepwise.Run.Subscript

/-!
The values of expressions.

The parts of an expression are evaluated by a `Level` below the one that the expression is
evaluated at, so that no definition here calls itself through the tree.
-/

namespace Stepwise.Run

open Script Effect

inductive Flow where
  | normal
  | breaking
  | continuing
  | returning (value : Value)

/-- How expressions are evaluated, blocks are executed and values are called. -/
structure Level (σ : Type) where
  evaluate : Expr → Effect σ Value
  execute : List Statement → Effect σ Flow
  call : Caller σ

def Level.exhausted {σ : Type} : Level σ :=
  ⟨fun _ => Effect.exhausted, fun _ => Effect.exhausted, fun _ _ _ => Effect.exhausted⟩

variable {σ : Type} (below : Level σ)

def holds (test : Expr) : Effect σ Bool := do
  let value ← below.evaluate test
  view value.truthy

def evaluateAll : List Expr → Effect σ (List Value)
  | [] => return []
  | expr :: rest => do
      let value ← below.evaluate expr
      return value :: (← evaluateAll rest)

def evaluateOption : Option Expr → Effect σ (Option Value)
  | none => return none
  | some expr => some <$> below.evaluate expr

/-- The arguments of a call by position and by name, evaluated from left to right. -/
def evaluateArguments : List Argument → Effect σ (List Value × Keywords)
  | [] => return ([], [])
  | .positional expr :: rest => do
      let value ← below.evaluate expr
      let (values, keywords) ← evaluateArguments rest
      return (value :: values, keywords)
  | .keyword name expr :: rest => do
      let value ← below.evaluate expr
      let (values, keywords) ← evaluateArguments rest
      return (values, (name, value) :: keywords)

/-- The entries of a dict; a key is checked before its value is evaluated. -/
def evaluateEntries : Dict Value → List (Expr × Expr) → Effect σ (Dict Value)
  | entries, [] => return entries
  | entries, (key, value) :: rest => do
      let key ← below.evaluate key
      let key ← onHeap (Action.keyOf key)
      let value ← below.evaluate value
      evaluateEntries (entries.insert key value) rest

/-- A chain of comparisons, which ends at the first one that does not hold. -/
def evaluateChain (depth : Nat) : Value → List (Comparison × Expr) → Effect σ Bool
  | _, [] => return true
  | left, (op, expr) :: rest => do
      let right ← below.evaluate expr
      if ← onHeap (comparison depth op left right) then evaluateChain depth right rest
      else return false

mutual

/-- Gives a target its value.  Names are bound by `bind`. -/
def assignBy (bind : String → Value → Effect σ Unit) : Target → Value → Effect σ Unit
  | .name name, value => bind name value
  | .index object index, value => do
      let object ← below.evaluate object
      let index ← below.evaluate index
      onHeap (setItem object index value)
  | .unpack targets, value => do
      assignAllBy bind targets (← onHeap (unpacked value targets.length))

def assignAllBy (bind : String → Value → Effect σ Unit) : List Target → List Value → Effect σ Unit
  | target :: targets, value :: values => do
      assignBy bind target value
      assignAllBy bind targets values
  | _, _ => return ()

end

def assign (target : Target) (value : Value) : Effect σ Unit := assignBy below store target value

/-- Whether all conditions hold; the first that does not ends the test. -/
def allHold : List Expr → Effect σ Bool
  | [] => return true
  | test :: rest => do if ← holds below test then allHold rest else return false

/-- Goes through the items of a walk and lets `collect` add to the values for each item that meets the
conditions. -/
def collectWalk (target : Target) (conditions : List Expr)
    (collect : Array Value → Effect σ (Array Value)) :
    Nat → Walk → Array Value → Effect σ (Array Value)
  | 0, _, _ => exhausted
  | fuel + 1, walk, values => do
      match ← onHeap (Action.next walk) with
      | none => return values
      | some (item, walk) => do
          assignBy below bindVariable target item
          if ← allHold below conditions then
            collectWalk target conditions collect fuel walk (← collect values)
          else collectWalk target conditions collect fuel walk values

/-- Adds the values of a comprehension, which are those of `element` under the bindings of the
clauses. -/
def collectClauses (fuel : Nat) (element : Expr) :
    List Clause → Array Value → Effect σ (Array Value)
  | [], values => do
      let value ← below.evaluate element
      return values.push value
  | .mk target iterable conditions :: rest, values => do
      let iterable ← below.evaluate iterable
      let walk ← onHeap (Action.walk iterable)
      collectWalk below target conditions (collectClauses fuel element rest) fuel walk values

def evaluateComprehension (fuel : Nat) (element : Expr) (clauses : List Clause) :
    Effect σ Value := do
  openScope
  let result ← outcome (collectClauses below fuel element clauses #[])
  closeScope
  let values ← resume result
  onHeap (Action.newList values.toList)

/-- The value of an expression. -/
def evaluate (fuel : Nat) : Expr → Effect σ Value
  | .none => return .none
  | .bool value => return .bool value
  | .int value => return .int value
  | .float value => return .float (.ofFloat value)
  | .str content => return .str content
  | .name name => load name
  | .list items => do onHeap (Action.newList (← evaluateAll below items))
  | .tuple items => do onHeap (Action.newTuple (← evaluateAll below items))
  | .dict entries => do onHeap (Action.newDict (← evaluateEntries below .empty entries))
  | .comprehension element clauses => evaluateComprehension below fuel element clauses
  | .unary op operand => do
      let operand ← below.evaluate operand
      onHeap (unary op operand)
  | .binary op left right => do
      let left ← below.evaluate left
      let right ← below.evaluate right
      onHeap (binary op left right)
  | .compare left links => do
      let left ← below.evaluate left
      return .bool (← evaluateChain below fuel left links)
  | .logic op left right => do
      let left ← below.evaluate left
      let isTrue ← view left.truthy
      match op, isTrue with
      | .and, false => return left
      | .or, true => return left
      | _, _ => below.evaluate right
  | .conditional test body orelse => do
      if ← holds below test then below.evaluate body else below.evaluate orelse
  | .call function arguments => do
      let function ← below.evaluate function
      let (values, keywords) ← evaluateArguments below arguments
      below.call function values keywords
  | .method object name arguments => do
      let object ← below.evaluate object
      let (values, keywords) ← evaluateArguments below arguments
      applyMethod below.call fuel object name values keywords
  | .attribute object name => do
      let object ← below.evaluate object
      onHeap (noAttribute object name)
  | .index object index => do
      let object ← below.evaluate object
      let index ← below.evaluate index
      onHeap (item object index)
  | .slice object lower upper step => do
      let object ← below.evaluate object
      let lower ← evaluateOption below lower
      let upper ← evaluateOption below upper
      let step ← evaluateOption below step
      onHeap (slice object lower upper step)

end Stepwise.Run
