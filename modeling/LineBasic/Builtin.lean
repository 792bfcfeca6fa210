import LineBasic.Fault
import LineBasic.Generator
import LineBasic.Text.Upper

/-!
The intrinsic functions: RND draws a random number and ignores its argument,
INT rounds a number down.
-/

namespace LineBasic

/-- A computation that may fail and may draw random numbers. What it drew
stays drawn when it fails. -/
abbrev Eval (ε : Type) := ExceptT ε (StateM Generator)

namespace Eval

def draw {ε : Type} : Eval ε Value := do
  return .number (← modifyGet Generator.draw)

def ofExcept {ε α : Type} (r : Except ε α) : Eval ε α := ExceptT.mk (pure r)

end Eval

namespace Builtin

def ofName? (name : String) : Option Builtin :=
  let key := Text.upperString name
  if key = "RND" then some .rnd else if key = "INT" then some .int else none

def call : Builtin → List Value → Eval Fault Value
  | .rnd, [] | .rnd, [_] => Eval.draw
  | .int, [.number x] => return .number (Binary64.floor x)
  | .int, [.text _] => throw (.nonNumericArgument .int)
  | f, _ => throw (.wrongArity f)

end Builtin

end LineBasic
