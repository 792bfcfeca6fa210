import LineBasic.Builtin
import LineBasic.Environment
import LineBasic.Expr.Parser

/-!
Evaluation of expressions. Operands are evaluated from left to right; the
logical operators skip their right operand when the left one decides. A plus
with a text on either side joins the printed forms of its operands.

`evaluate` works on text. A text literal and a plain number are recognised
before the grammar is asked, so a number may carry a sign of its own.
-/

namespace LineBasic

inductive Failure where
  | fault (f : Fault)
  | mismatch (m : Mismatch)
deriving DecidableEq, Repr

def UnaryOp.apply : UnaryOp → Value → Except Failure Value
  | .not, v => .ok (.ofBool !v.isTrue)
  | .plus, .number x => .ok (.number x)
  | .minus, .number x => .ok (.number (-x))
  | op, v => .error (.mismatch (.sign op v.type))

def BinaryOp.apply : BinaryOp → Value → Value → Except Failure Value
  | .add, .number x, .number y => .ok (.number (x + y))
  | .add, a, b => .ok (.text (a.display ++ b.display))
  | .subtract, .number x, .number y => .ok (.number (x - y))
  | .multiply, .number x, .number y => .ok (.number (x * y))
  | .divide, .number x, .number y =>
    if y == 0 then .error (.fault .divisionByZero) else .ok (.number (x / y))
  | .equal, a, b => .ok (.ofBool (a.equals b))
  | .notEqual, a, b | .different, a, b => .ok (.ofBool !a.equals b)
  | .less, .number x, .number y => .ok (.ofBool (x < y))
  | .less, .text s, .text t => .ok (.ofBool (s < t))
  | .greater, .number x, .number y => .ok (.ofBool (y < x))
  | .greater, .text s, .text t => .ok (.ofBool (t < s))
  | .lessEqual, .number x, .number y => .ok (.ofBool (x ≤ y))
  | .lessEqual, .text s, .text t => .ok (.ofBool (!decide (t < s)))
  | .greaterEqual, .number x, .number y => .ok (.ofBool (y ≤ x))
  | .greaterEqual, .text s, .text t => .ok (.ofBool (!decide (s < t)))
  | .and, a, b => .ok (.ofBool (a.isTrue && b.isTrue))
  | .or, a, b => .ok (.ofBool (a.isTrue || b.isTrue))
  | .less, a, b | .greater, a, b | .lessEqual, a, b | .greaterEqual, a, b =>
    .error (.mismatch (.order a.type b.type))
  | op, a, b => .error (.mismatch (.arithmetic op a.type b.type))

namespace Expr

/-- The intrinsic function of a name; a fault if there is none. -/
def builtin (name : String) : Eval Failure Builtin :=
  match Builtin.ofName? name with
  | some f => return f
  | none => throw (.fault (.unknownFunction name))

/-- The value of a tree. The name RND stands for a random number even where a
variable has that name. -/
def eval (env : Environment) : Expr → Eval Failure Value
  | .number x => return .number x.value
  | .text s => return .text s
  | .variable name =>
    if name = "RND" then Eval.draw
    else (Eval.ofExcept (env.get name)).adapt Failure.fault
  | .invoke name => do
    let f ← builtin name
    (f.call []).adapt Failure.fault
  | .apply name argument => do
    let f ← builtin name
    let v ← argument.eval env
    (f.call [v]).adapt Failure.fault
  | .unary op operand => do
    let v ← operand.eval env
    Eval.ofExcept (op.apply v)
  | .binary .and left right => do
    let a ← left.eval env
    if a.isTrue then
      let b ← right.eval env
      return .ofBool b.isTrue
    else
      return .ofBool false
  | .binary .or left right => do
    let a ← left.eval env
    if a.isTrue then
      return .ofBool true
    else
      let b ← right.eval env
      return .ofBool b.isTrue
  | .binary op left right => do
    let a ← left.eval env
    let b ← right.eval env
    Eval.ofExcept (op.apply a b)

end Expr

/-- The content of a text that is one text literal from end to end. -/
def literalContent? : List Char → Option (List Char)
  | '"' :: cs =>
    if cs.dropWhile isInsideQuotes = ['"'] then some (cs.takeWhile isInsideQuotes) else none
  | _ => none

/-- A failure of an expression as a fault of the statement that holds it. -/
def Failure.toFault (text : String) : Failure → Fault
  | .fault f => f
  | .mismatch m => .illTyped text m

def evaluateTrimmed (env : Environment) (cs : List Char) : Eval Fault Value :=
  match literalContent? cs with
  | some content => return .text (String.ofList content)
  | none =>
    match readTrimmedNumber? cs with
    | some x => return .number x
    | none =>
      match Expr.ofExpression? cs with
      | some e => (e.eval env).adapt (Failure.toFault (String.ofList cs))
      | none => throw (.malformedExpression (String.ofList cs))

def evaluate (env : Environment) (s : String) : Eval Fault Value :=
  evaluateTrimmed env (Text.trim s.toList)

end LineBasic
