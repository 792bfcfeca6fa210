import LineBasic.Expr.Evaluate
import LineBasic.Piece

/-!
The arguments of PRINT. A list is cut at the commas and semicolons outside
text literals; a comma puts a space between its neighbours and a semicolon
nothing.

An argument that the grammar of expressions cannot handle is printed as its
literal text, with the quotes removed, the bound variables filled in and the
other words left out.
-/

namespace LineBasic

inductive Separator where
  | comma
  | semicolon
deriving DecidableEq, Repr

structure PrintItem where
  text : List Char
  -- only the last item may have none
  separator : Option Separator
deriving DecidableEq, Repr

def Separator.ofChar? (c : Char) : Option Separator :=
  if c = ',' then some .comma else if c = ';' then some .semicolon else none

namespace PrintItem

/-- Puts a character in front of the first of several items. -/
def consFirst (c : Char) : List PrintItem → List PrintItem
  | [] => [⟨[c], none⟩]
  | item :: items => { item with text := c :: item.text } :: items

/-- Cuts a text at its separators, the last item being the one without a
separator. `quoted` tells whether the text starts inside a text literal. -/
def cut (quoted : Bool) : List Char → List PrintItem
  | [] => [⟨[], none⟩]
  | c :: cs =>
    let quoted := if c = '"' then !quoted else quoted
    match if quoted then none else Separator.ofChar? c with
    | some separator => ⟨[], some separator⟩ :: cut quoted cs
    | none => consFirst c (cut quoted cs)

/-- The items of an argument list, trimmed. An empty item at the end is left
out. -/
def ofText (cs : List Char) : List PrintItem :=
  ((cut false cs).map fun item => { item with text := Text.trim item.text }).filter
    fun item => item.separator.isSome || item.text != []

/-- What a piece of an argument is replaced by in literal text. -/
def literalPiece (env : Environment) : Piece → List Char
  | .quoted content => content
  | .word cs => (env.getD (String.ofList cs) (.text "")).display.toList
  | .other c => [c]

def literalText (env : Environment) (cs : List Char) : String :=
  String.ofList ((Piece.ofText cs).flatMap (literalPiece env))

end PrintItem

/-- Whether a fault says that an expression cannot be evaluated. -/
def Fault.isExpressionFault : Fault → Bool
  | .malformedExpression _ | .illTyped _ _ | .unknownFunction _ | .wrongArity _
  | .nonNumericArgument _ => true
  | _ => false

namespace PrintItem

/-- The value of one trimmed argument. A single variable must be bound. -/
def evaluate (env : Environment) (cs : List Char) : Eval Fault Value :=
  match literalContent? cs with
  | some content => return .text (String.ofList content)
  | none =>
    if isName cs then
      if Text.upper cs = "RND".toList then Eval.draw
      else Eval.ofExcept (env.get (String.ofList cs))
    else
      tryCatch (evaluateTrimmed env cs) fun f =>
        if f.isExpressionFault then return .text (literalText env cs) else throw f

/-- The line that a list of arguments prints. `afterComma` tells whether a
comma stands before the list. -/
def line (env : Environment) (afterComma : Bool) : List PrintItem → Eval Fault String
  | [] => return ""
  | item :: items => do
    let v ← evaluate env item.text
    let rest ← line env (item.separator = some .comma) items
    return (if afterComma then " " else "") ++ v.display ++ rest

end PrintItem

end LineBasic
