import LineBasic.Expr.Token
import LineBasic.Text.Upper

/-!
Parsing. The levels of the grammar, from the loosest to the tightest:
alternatives, conjunctions, negation, comparisons, sums, products, signs, and
atoms. An expression is a sum and a condition is an alternative; parentheses
hold a condition, and a function's argument is a sum. Operators of one level
associate to the left.
-/

namespace LineBasic

inductive Level where
  | alternative
  | conjunction
  | negation
  | comparison
  | sum
  | product
  | sign
  | atom
deriving DecidableEq, Repr

namespace Level

def tighter : Level → Level
  | .alternative => .conjunction
  | .conjunction => .negation
  | .negation => .comparison
  | .comparison => .sum
  | .sum => .product
  | .product => .sign
  | .sign => .atom
  | .atom => .atom

end Level

def BinaryOp.level : BinaryOp → Level
  | .or => .alternative
  | .and => .conjunction
  | .equal | .notEqual | .different | .less | .greater | .lessEqual | .greaterEqual => .comparison
  | .add | .subtract => .sum
  | .multiply | .divide => .product

def Token.operatorAt? (level : Level) : Token → Option BinaryOp
  | .operator op => if op.level = level then some op else none
  | _ => none

namespace Expr

def treeName (cs : List Char) : String := String.ofList (Text.upper cs)

mutual

/-- Reads an expression of a level at the front of a list of tokens. The fuel
bounds the depth of the recursion. -/
def read? : Nat → Level → List Token → Option (Expr × List Token)
  | 0, _, _ => none
  | fuel + 1, .negation, ts =>
    match ts with
    | .bang :: rest =>
      match read? fuel .negation rest with
      | some (e, rest) => some (.unary .not e, rest)
      | none => none
    | ts => read? fuel .comparison ts
  | fuel + 1, .sign, ts =>
    match ts with
    | .operator .add :: rest =>
      match read? fuel .sign rest with
      | some (e, rest) => some (.unary .plus e, rest)
      | none => none
    | .operator .subtract :: rest =>
      match read? fuel .sign rest with
      | some (e, rest) => some (.unary .minus e, rest)
      | none => none
    | ts => read? fuel .atom ts
  | fuel + 1, .atom, ts =>
    match ts with
    | .number x :: rest => some (.number x, rest)
    | .text s :: rest => some (.text (String.ofList s), rest)
    | .name f :: .lparen :: .rparen :: rest => some (.invoke (treeName f), rest)
    | .name f :: .lparen :: rest =>
      match read? fuel .sum rest with
      | some (e, .rparen :: rest) => some (.apply (treeName f) e, rest)
      | _ => none
    | .name x :: rest => some (.variable (treeName x), rest)
    | .lparen :: rest =>
      match read? fuel .alternative rest with
      | some (e, .rparen :: rest) => some (e, rest)
      | _ => none
    | _ => none
  | fuel + 1, level, ts =>
    match read? fuel level.tighter ts with
    | some (e, rest) => readMore? fuel level e rest
    | none => none

/-- Goes on after the operands read so far, as long as an operator of the level
follows. -/
def readMore? : Nat → Level → Expr → List Token → Option (Expr × List Token)
  | 0, _, _, _ => none
  | _ + 1, _, left, [] => some (left, [])
  | fuel + 1, level, left, t :: ts =>
    match t.operatorAt? level with
    | none => some (left, t :: ts)
    | some op =>
      match read? fuel level.tighter ts with
      | some (right, rest) => readMore? fuel level (.binary op left right) rest
      | none => none

end

/-- The tree of a whole list of tokens. Between two tokens the recursion passes
each level once, so the fuel never runs out. -/
def ofTokens? (level : Level) (ts : List Token) : Option Expr :=
  match read? (10 * ts.length + 10) level ts with
  | some (e, []) => some e
  | _ => none

def parse? (level : Level) (cs : List Char) : Option Expr :=
  (tokens? cs).bind (ofTokens? level)

def ofExpression? (cs : List Char) : Option Expr := parse? .sum cs

def ofCondition? (cs : List Char) : Option Expr := parse? .alternative cs

end Expr

end LineBasic
