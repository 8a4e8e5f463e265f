import TemplateLint.Decimal.Binary64

namespace TemplateLint.Json

/-- Numbers that were read as whole numbers stay whole. The members of an object keep the order in
which their keys first came. -/
inductive Value where
  | null
  | bool (b : Bool)
  | int (i : Int)
  | float (x : Binary64)
  | string (s : String)
  | array (items : List Value)
  | object (members : List (String × Value))
  deriving Repr, Inhabited

/-- Sets a member: in the place of the one with its key, else after all others. -/
def setMember (key : String) (value : Value) : List (String × Value) → List (String × Value)
  | [] => [(key, value)]
  | (k, v) :: ms => if k = key then (k, value) :: ms else (k, v) :: setMember key value ms

/-- The members of an object whose members are read in the given order; of a repeated key the first
place and the last value count. -/
def members (read : List (String × Value)) : List (String × Value) :=
  read.foldl (fun ms m => setMember m.1 m.2 ms) []

def ofNat (n : Nat) : Value := .int n

end TemplateLint.Json
