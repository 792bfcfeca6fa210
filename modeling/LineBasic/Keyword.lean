/-!
The words that open a statement.
-/

namespace LineBasic

inductive Keyword where
  | PRINT
  | LET
  | INPUT
  | GOTO
  | GOSUB
  | RETURN
  | IF
  | FOR
  | NEXT
  | END
  | REM
deriving DecidableEq, Repr

namespace Keyword

def all : List Keyword :=
  [.PRINT, .LET, .INPUT, .GOTO, .GOSUB, .RETURN, .IF, .FOR, .NEXT, .END, .REM]

def word : Keyword → String
  | .PRINT => "PRINT"
  | .LET => "LET"
  | .INPUT => "INPUT"
  | .GOTO => "GOTO"
  | .GOSUB => "GOSUB"
  | .RETURN => "RETURN"
  | .IF => "IF"
  | .FOR => "FOR"
  | .NEXT => "NEXT"
  | .END => "END"
  | .REM => "REM"

def title : Keyword → String
  | .PRINT => "Print"
  | .LET => "Let"
  | .INPUT => "Input"
  | .GOTO => "Goto"
  | .GOSUB => "Gosub"
  | .RETURN => "Return"
  | .IF => "If"
  | .FOR => "For"
  | .NEXT => "Next"
  | .END => "End"
  | .REM => "Rem"

def ofWord? (s : String) : Option Keyword := all.find? fun k => k.word == s

end Keyword

end LineBasic
