import Stepwise.Run.Error
import Stepwise.Value.Render

/-!
Errors that a script raises by the name of their class.
-/

namespace Stepwise.Run

def namesException (name : String) : Bool :=
  "Error".toList.isSuffixOf name.toList || "Exception".toList.isSuffixOf name.toList ||
    name == "StopIteration"

def raisedMessage (heap : Heap) : List Value → String
  | [] => ""
  | [value] => value.display heap
  | values => (Value.tuple heap.nextTag values).render heap

def raisedError (heap : Heap) (className : String) (arguments : List Value) : RuntimeError :=
  let message := raisedMessage heap arguments
  match className with
  | "KeyError" => .key ((arguments.head?.map (Value.render heap)).getD "")
  | "AssertionError" => .assertion (if message.isEmpty then none else some message)
  | "StopIteration" => .stopIteration
  | className => .raised className message

def nothingToRaise : RuntimeError := .raised "RuntimeError" "No active exception to reraise"

end Stepwise.Run
