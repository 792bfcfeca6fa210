import LineBasic.Fault
import LineBasic.Text.Upper
import LineBasic.Text.Word
import Std.Data.ExtTreeMap

/-!
Variables. A name is an ASCII letter followed by word characters of any
script. Names are matched by their upper case, so bindings are kept under
upper-case names, in ascending order.

A value is a double or a text by its type, so only the name of a binding can be
refused. That a value of the host is neither, or is an integer beyond every
double, has no counterpart here: no program computes such a value, and a host
can only bind one by hand.
-/

namespace LineBasic

def isName : List Char → Bool
  | [] => false
  | c :: cs => Text.isLetter c && cs.all Text.isWord

/-- The upper case of a variable name; a fault if it is no name. -/
def normalName (name : String) : Except Fault String :=
  if isName name.toList then .ok (Text.upperString name) else .error (.invalidName name)

structure Environment where
  bindings : Std.ExtTreeMap String Value compare := ∅
deriving DecidableEq

namespace Environment

def empty : Environment := {}

instance : Inhabited Environment := ⟨empty⟩

def get? (env : Environment) (name : String) : Option Value :=
  env.bindings[Text.upperString name]?

def get (env : Environment) (name : String) : Except Fault Value :=
  match env.get? name with
  | some v => .ok v
  | none => .error (.undefinedVariable (Text.upperString name))

def getD (env : Environment) (name : String) (default : Value) : Value :=
  (env.get? name).getD default

def contains (env : Environment) (name : String) : Bool := (env.get? name).isSome

def set (env : Environment) (name : String) (v : Value) : Except Fault Environment :=
  match normalName name with
  | .ok key => .ok ⟨env.bindings.insert key v⟩
  | .error f => .error f

def toList (env : Environment) : List (String × Value) := env.bindings.toList

theorem get?_empty (name : String) : empty.get? name = none := by
  simp [get?, empty]

end Environment

end LineBasic
