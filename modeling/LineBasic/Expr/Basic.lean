import LineBasic.Number.Numeral

/-!
Expressions and conditions as trees. Numerals keep their spelling, so a tree
determines its text; names are in upper case.
-/

namespace LineBasic

inductive UnaryOp where
  | plus
  | minus
  | not
deriving DecidableEq, Repr

inductive BinaryOp where
  | or
  | and
  | equal
  | notEqual
  | different
  | less
  | greater
  | lessEqual
  | greaterEqual
  | add
  | subtract
  | multiply
  | divide
deriving DecidableEq, Repr

def UnaryOp.symbol : UnaryOp → String
  | .plus => "+"
  | .minus => "-"
  | .not => "!"

def BinaryOp.symbol : BinaryOp → String
  | .or => "||"
  | .and => "&&"
  | .equal => "=="
  | .notEqual => "!="
  | .different => "<>"
  | .less => "<"
  | .greater => ">"
  | .lessEqual => "<="
  | .greaterEqual => ">="
  | .add => "+"
  | .subtract => "-"
  | .multiply => "*"
  | .divide => "/"

inductive Expr where
  | number (numeral : Numeral)
  | text (content : String)
  | variable (name : String)
  | invoke (function : String)
  | apply (function : String) (argument : Expr)
  | unary (op : UnaryOp) (operand : Expr)
  | binary (op : BinaryOp) (left right : Expr)
deriving DecidableEq, Repr

end LineBasic
