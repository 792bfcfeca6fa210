import LineBasic.Expr.Basic
import LineBasic.Keyword
import LineBasic.Value
import LineBasic.Text.Quoted

/-!
Faults, one constructor for each cause. `Fault.kind` is the short name that
the trace shows and that callers tell faults apart by, and `Fault.message` the
sentence for the user. Several causes share a kind.
-/

namespace LineBasic

inductive Builtin where
  | rnd
  | int
deriving DecidableEq, Repr

def Builtin.name : Builtin → String
  | .rnd => "RND"
  | .int => "INT"

/-- How many arguments an intrinsic function takes, in words. -/
def Builtin.arity : Builtin → String
  | .rnd => "0 to 1"
  | .int => "1"

inductive Mismatch where
  | sign (op : UnaryOp) (operand : ValueType)
  | arithmetic (op : BinaryOp) (left right : ValueType)
  | order (left right : ValueType)
deriving DecidableEq, Repr

def Mismatch.message : Mismatch → String
  | .sign op a => "unary " ++ op.symbol ++ " expects a number, got " ++ a.word
  | .arithmetic op a b => "unsupported " ++ op.symbol ++ " for " ++ a.word ++ " and " ++ b.word
  | .order a b => "comparison not supported for " ++ a.word ++ " and " ++ b.word

inductive Fault where
  | invalidName (name : String)
  | undefinedVariable (name : String)
  | divisionByZero
  | malformedExpression (text : String)
  | illTyped (text : String) (mismatch : Mismatch)
  | unknownFunction (name : String)
  | wrongArity (function : Builtin)
  | nonNumericArgument (function : Builtin)
  | undecidedCondition (condition expanded : String)
  | malformedStatement (keyword : Keyword) (text : String)
  | unknownCommand (word : String)
  | nonNumericBounds (text : String)
  | nonNumericLoopVariable (name : String)
  | zeroStep
  | nextWithoutFor (name : String)
  | returnWithoutGosub
  | missingLine (number : Nat)
  | invalidLine (line : String)
  | duplicateLines (numbers : List Nat)
deriving DecidableEq, Repr

namespace Fault

def kind : Fault → String
  | .invalidName _ => "InvalidVariableName"
  | .undefinedVariable _ => "UndefinedVariable"
  | .divisionByZero => "DivisionByZero"
  | .malformedExpression _ | .illTyped _ _ | .unknownFunction _ | .wrongArity _
  | .nonNumericArgument _ => "CannotEvaluateExpression"
  | .undecidedCondition _ _ => "CannotEvaluateCondition"
  | .malformedStatement keyword _ => "Invalid" ++ keyword.title ++ "Syntax"
  | .unknownCommand _ => "UnknownCommand"
  | .nonNumericBounds _ | .nonNumericLoopVariable _ => "NonNumericForBounds"
  | .zeroStep => "ZeroStep"
  | .nextWithoutFor _ => "NextWithoutFor"
  | .returnWithoutGosub => "ReturnWithoutGosub"
  | .missingLine _ => "GotoTargetMissing"
  | .invalidLine _ => "InvalidLineFormat"
  | .duplicateLines _ => "DuplicateLineNumber"

def message : Fault → String
  | .invalidName name => "Invalid variable name: " ++ name
  | .undefinedVariable name => "Undefined variable: " ++ name
  | .divisionByZero => "Division by zero"
  | .malformedExpression text => "Cannot evaluate expression: " ++ text
  | .illTyped text mismatch =>
    "Cannot evaluate expression: " ++ text ++ " (" ++ mismatch.message ++ ")"
  | .unknownFunction name => "Unknown function: " ++ name
  | .wrongArity function => function.name ++ " expects " ++ function.arity ++ " argument(s)"
  | .nonNumericArgument function => function.name ++ " argument must be a number"
  | .undecidedCondition condition expanded =>
    "Cannot evaluate condition: " ++ condition ++ " (rewritten as " ++ expanded ++ ")"
  | .malformedStatement keyword text => "Invalid " ++ keyword.word ++ " syntax: " ++ text
  | .unknownCommand word =>
    "Unknown command: " ++ word ++ " (valid commands: "
      ++ ", ".intercalate (Keyword.all.map Keyword.word) ++ ")"
  | .nonNumericBounds text => "FOR bounds must be numbers: " ++ text
  | .nonNumericLoopVariable name => "FOR variable " ++ name ++ " is not a number"
  | .zeroStep => "FOR STEP cannot be zero"
  | .nextWithoutFor name => "NEXT without FOR: " ++ name
  | .returnWithoutGosub => "RETURN without GOSUB"
  | .missingLine number => "Line " ++ toString number ++ " does not exist"
  | .invalidLine line => "Invalid line format: " ++ Text.quote line
  | .duplicateLines numbers =>
    "Duplicate line numbers: " ++ ", ".intercalate (numbers.map toString)

end Fault

inductive Abort where
  | fault (f : Fault)
  | oversized (digits : Nat)
deriving DecidableEq, Repr

end LineBasic
