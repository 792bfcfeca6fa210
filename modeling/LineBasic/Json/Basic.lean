/-!
JSON values, in so far as trees of files need them. Of a number only its form
is kept: whether it is an integer, and whether it is zero.
-/

namespace LineBasic

inductive Json where
  | null
  | bool (b : Bool)
  | number (integral zero : Bool)
  | string (s : String)
  | array (elements : List Json)
  -- in the order of the text, with repeated names
  | object (fields : List (String × Json))
deriving Inhabited

namespace Json

inductive Kind where
  | null
  | bool
  | integer
  | real
  | string
  | array
  | object
deriving DecidableEq, Repr

def kind : Json → Kind
  | .null => .null
  | .bool _ => .bool
  | .number integral _ => if integral then .integer else .real
  | .string _ => .string
  | .array _ => .array
  | .object _ => .object

/-- Whether a value holds nothing: null, false, zero, and whatever is empty. -/
def isVoid : Json → Bool
  | .null => true
  | .bool b => !b
  | .number _ zero => zero
  | .string s => s.isEmpty
  | .array elements => elements.isEmpty
  | .object fields => fields.isEmpty

def isString (s : String) : Json → Bool
  | .string t => s == t
  | _ => false

def field? (name : String) (fields : List (String × Json)) : Option Json :=
  fields.reverse.lookup name

end Json

end LineBasic
