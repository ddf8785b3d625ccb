/-!
Interchange values.
-/

namespace Stepwise

/-- An interchange value.  An object keeps its members in order and may repeat a key. -/
inductive Json where
  | null
  | bool (value : Bool)
  | int (value : Int)
  | float (value : Float)
  | str (value : String)
  | array (items : List Json)
  | object (members : List (String × Json))

namespace Json

def nat (n : Nat) : Json := .int n

def member? (key : String) : Json → Option Json
  | .object members => (members.reverse.find? fun member => member.1 == key).map (·.2)
  | _ => none

end Json

end Stepwise
