import LineBasic.Expr.Evaluate
import LineBasic.Piece

/-!
Conditions. The text of a condition is expanded before it is parsed: one pair
of parentheses around the whole is removed, bound variables are replaced by
the literal text of their values, AND, OR and NOT by operators, and a single
equals sign by a double one. The result is evaluated without any variables,
so a name that was not bound makes the condition fault.
-/

namespace LineBasic

/-- The text of a value as it stands in a condition. A text is put between
quotes as it is; an infinite number is written as one that is too large. -/
def Value.literal : Value → List Char
  | .text s => '"' :: s.toList ++ ['"']
  | .number x =>
    match Binary64.decode x with
    | .infinite false => "1e999".toList
    | .infinite true => "-1e999".toList
    | _ => numberText x

namespace Condition

/-- Whether no closing parenthesis before the last character closes the first
one. `depth` counts the open parentheses and `quoted` tells whether the text
starts inside a text literal. -/
def isEnclosed (depth : Nat) (quoted : Bool) : List Char → Bool
  | [] => true
  | c :: cs =>
    if c = '"' then isEnclosed depth (!quoted) cs
    else if quoted then isEnclosed depth quoted cs
    else if c = '(' then isEnclosed (depth + 1) quoted cs
    else if c = ')' then
      if depth = 1 ∧ cs ≠ [] then false else isEnclosed (depth - 1) quoted cs
    else isEnclosed depth quoted cs

/-- The text without one pair of parentheses, if it encloses the whole. -/
def stripParens (cs : List Char) : List Char :=
  if cs.head? = some '(' ∧ cs.getLast? = some ')' ∧ isEnclosed 0 false cs then
    Text.trim cs.tail.dropLast
  else cs

/-- A character before an equals sign that makes it part of a longer
operator. -/
def bindsEquals (c : Char) : Bool := c == '<' || c == '>' || c == '!' || c == '='

/-- Doubles each equals sign that stands alone outside text literals. `before`
is the character in front of the text. -/
def doubleEqualsAfter (before : Option Char) (quoted : Bool) : List Char → List Char
  | [] => []
  | c :: cs =>
    if c = '"' then c :: doubleEqualsAfter (some c) (!quoted) cs
    else if c = '=' ∧ quoted = false ∧ before.any bindsEquals = false ∧ cs.head? ≠ some '=' then
      '=' :: '=' :: doubleEqualsAfter (some c) quoted cs
    else c :: doubleEqualsAfter (some c) quoted cs

def doubleEquals (cs : List Char) : List Char := doubleEqualsAfter none false cs

/-- The operator that a word stands for, given in upper case. -/
def logicalWord? (name : String) : Option String :=
  if name = "AND" then some "&&"
  else if name = "OR" then some "||"
  else if name = "NOT" then some "!"
  else none

/-- What a piece of a condition is replaced by. A bound variable comes before
a logical word. -/
def substitutePiece (env : Environment) : Piece → List Char
  | .word cs =>
    match env.get? (String.ofList cs) with
    | some v => v.literal
    | none => ((logicalWord? (Text.upperString (String.ofList cs))).map String.toList).getD cs
  | piece => piece.spelling

/-- The text with its bound variables and logical words replaced. -/
def substitute (env : Environment) (cs : List Char) : List Char :=
  (Piece.ofText cs).flatMap (substitutePiece env)

/-- The text of a trimmed condition that is parsed in its place. -/
def expand (env : Environment) (cs : List Char) : List Char :=
  doubleEquals (substitute env (stripParens cs))

/-- The truth of a trimmed condition. Whatever goes wrong is the same fault. -/
def holds (env : Environment) (cs : List Char) : Eval Fault Bool :=
  let expanded := expand env cs
  let fault := Fault.undecidedCondition (String.ofList cs) (String.ofList expanded)
  match Expr.ofCondition? expanded with
  | none => throw fault
  | some e => do
    let v ← (e.eval Environment.empty).adapt fun _ => fault
    return v.isTrue

end Condition

end LineBasic
