import LineBasic.Number.Format

/-!
The values of the language: numbers, which are doubles, and texts.
-/

namespace LineBasic

inductive Value where
  | number (x : Float)
  | text (s : String)
deriving DecidableEq

inductive ValueType where
  | number
  | text
deriving DecidableEq, Repr

def ValueType.word : ValueType → String
  | .number => "Number"
  | .text => "String"

namespace Value

def type : Value → ValueType
  | .number _ => .number
  | .text _ => .text

def display : Value → String
  | .number x => formatNumber x
  | .text s => s

/-- A number counts as true unless it equals zero, a text unless it is empty. -/
def isTrue : Value → Bool
  | .number x => !(x == 0)
  | .text s => !s.isEmpty

def ofBool (b : Bool) : Value := .number (if b then 1 else 0)

/-- Values of different types are never equal. Numbers are compared as
doubles, so zero equals its negative and no value equals a number that is not
one. -/
def equals : Value → Value → Bool
  | .number x, .number y => x == y
  | .text s, .text t => s == t
  | _, _ => false

end Value

end LineBasic
