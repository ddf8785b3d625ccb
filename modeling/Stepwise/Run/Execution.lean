import Stepwise.Run.Evaluation
import Stepwise.Run.Exception

/-!
The execution of statements.

The hook is told about the line of a statement before the statement runs, unless the statement
shares its line with the one before.  The header of a loop is reported for every test of a `while`
and for every fetch of a `for`, also for the last one.
-/

namespace Stepwise.Run

open Script Effect

variable {σ : Type} (environment : Environment σ) (below : Level σ)

/-- The result of an augmented assignment: `+=` extends a list in place, and everything else makes a
new value. -/
def augmented (op : BinaryOp) (current operand : Value) : Action Value :=
  match op, current with
  | .add, .list ref => do
      let extra ← Action.itemsOf operand
      Action.update fun heap => heap.modifyList ref fun items => items ++ extra.toArray
      return current
  | op, current => binary op current operand

/-- An augmented assignment.  The target is read before the operand is evaluated. -/
def augment (op : BinaryOp) (operand : Expr) : Target → Effect σ Unit
  | .name name => do
      let current ← load name
      let operand ← below.evaluate operand
      store name (← onHeap (augmented op current operand))
  | .index object index => do
      let object ← below.evaluate object
      let index ← below.evaluate index
      let current ← onHeap (item object index)
      let operand ← below.evaluate operand
      let value ← onHeap (augmented op current operand)
      onHeap (setItem object index value)
  | .unpack _ => internal .augmentsSequence

def assignEach (value : Value) : List Target → Effect σ Unit
  | [] => return ()
  | target :: rest => do
      assign below target value
      assignEach value rest

/-- Binds the function with a number to its name.  The defaults of its parameters are evaluated
now. -/
def define (id : Nat) : Effect σ Unit := do
  match environment.functions[id]? with
  | none => internal (.unknownFunction id)
  | some definition =>
      let defaults ← evaluateAll below (definition.parameters.filterMap Parameter.default)
      let function ← onHeap (Action.change fun heap =>
        heap.newFunction ⟨environment.namespaceId, id, definition.name, defaults⟩)
      store definition.name function

/-- Whether a name stands for an error class: the script has not bound it to anything. -/
def isException (name : String) : Effect σ Bool := do
  if namesException name then return (← binding? name).isNone else return false

def raiseOther (expr : Expr) : Effect σ RuntimeError := do
  let _ ← below.evaluate expr
  return .type .notException

def errorToRaise : Option Expr → Effect σ RuntimeError
  | none => return nothingToRaise
  | some (.name name) => do
      if ← isException name then view fun heap => raisedError heap name []
      else raiseOther below (.name name)
  | some (.call (.name name) arguments) => do
      if ← isException name then
        let (values, _) ← evaluateArguments below arguments
        view fun heap => raisedError heap name values
      else raiseOther below (.call (.name name) arguments)
  | some expr => raiseOther below expr

def assertionMessage : Option Expr → Effect σ (Option String)
  | none => return none
  | some expr => do
      let value ← below.evaluate expr
      some <$> view value.display

/-- Runs the body of a loop as long as the test holds. -/
def whileLoop (line : Nat) (test : Expr) (body : List Statement) : Nat → Effect σ Flow
  | 0 => exhausted
  | fuel + 1 => do
      reportLine environment line
      if ← holds below test then
        match ← below.execute body with
        | .breaking => return .normal
        | .returning value => return .returning value
        | _ => whileLoop line test body fuel
      else return .normal

/-- Runs the body of a loop for the items of a walk.  The header is reported after every run of the
body, for the next fetch. -/
def forLoop (line : Nat) (target : Target) (body : List Statement) : Nat → Walk → Effect σ Flow
  | 0, _ => exhausted
  | fuel + 1, walk => do
      match ← onHeap (Action.next walk) with
      | none => return .normal
      | some (item, walk) => do
          assign below target item
          match ← below.execute body with
          | .breaking => return .normal
          | .returning value => return .returning value
          | _ => do
              reportLine environment line
              forLoop line target body fuel walk

/-- Runs what a statement does, once its line is reported; loops report their lines themselves. -/
def executeForm (fuel line : Nat) : Form → Effect σ Flow
  | .expr expr => do
      let _ ← below.evaluate expr
      return .normal
  | .assign targets expr => do
      let value ← below.evaluate expr
      assignEach below value targets
      return .normal
  | .augment target op expr => do
      augment below op expr target
      return .normal
  | .branch test body orelse => do
      if ← holds below test then below.execute body else below.execute orelse
  | .whileLoop test body => whileLoop environment below line test body fuel
  | .forLoop target iterable body => do
      reportLine environment line
      let iterable ← below.evaluate iterable
      let walk ← onHeap (Action.walk iterable)
      forLoop environment below line target body fuel walk
  | .breakLoop => return .breaking
  | .continueLoop => return .continuing
  | .pass => return .normal
  | .giveBack expr => do
      let value ← evaluateOption below expr
      return .returning (value.getD .none)
  | .raise expr => do throw (← errorToRaise below expr)
  | .assert test message => do
      if ← holds below test then return .normal
      else throw (.assertion (← assertionMessage below message))
  | .define id => do
      define environment below id
      return .normal

/-- Whether a form is a loop, which reports its own line. -/
def isLoop : Form → Bool
  | .whileLoop .. => true
  | .forLoop .. => true
  | _ => false

def executeStatement (fuel : Nat) : Statement → Effect σ Flow
  | .mk line sameLine form => do
      if !isLoop form then
        if sameLine then moveToLine line else reportLine environment line
      executeForm environment below fuel line form

/-- Runs statements one after the other, until one of them leaves the block. -/
def executeBlock (fuel : Nat) : List Statement → Effect σ Flow
  | [] => return .normal
  | statement :: rest => do
      match ← executeStatement environment below fuel statement with
      | .normal => executeBlock fuel rest
      | flow => return flow

end Stepwise.Run
