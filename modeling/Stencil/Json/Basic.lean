import Stencil.Number
import Stencil.Table

/-!
# Data values

The values that options are given as. A value counts as given unless it is empty: nothing, false,
zero, or a text, list or object without content.
-/

namespace Stencil

inductive Json where
  | null
  | bool (value : Bool)
  | int (value : Int)
  /-- A number that is no integer as it is written. -/
  | real (value : Number)
  | string (value : Text)
  | array (items : List Json)
  | object (members : List (Text × Json))
deriving BEq, Repr, Inhabited

/-- The members of an object in order. -/
abbrev Object := Table Json

namespace Json

/-- Whether the value is not empty. -/
def isGiven : Json → Bool
  | null => false
  | bool b => b
  | int n => n != 0
  | real x => !x.isZero
  | string s => !s.isEmpty
  | array items => !items.isEmpty
  | object members => !members.isEmpty

def object? : Json → Option Object
  | object members => some members
  | _ => none

def toText? : Json → Option Text
  | string s => some s
  | _ => none

/-- The name of the type of a value in messages. -/
def typeName : Json → String
  | null => "NoneType"
  | bool _ => "bool"
  | int _ => "int"
  | real _ => "float"
  | string _ => "str"
  | array _ => "list"
  | object _ => "dict"

end Json

end Stencil
