import LineBasic.Command.Shape
import LineBasic.Environment
import LineBasic.PrintList

/-!
Commands: what a statement says to do. Every text is a command; one without a
proper shape is the command that faults. Expressions stay text, since they are
parsed when they are evaluated.
-/

namespace LineBasic

structure LoopHeader where
  name : String
  start : List Char
  bound : List Char
  step : Option (List Char)
  -- the header as it is written
  text : String
deriving DecidableEq, Repr

inductive Command where
  | print (items : List PrintItem)
  | assign (name : String) (value : List Char)
  | input (name prompt : String)
  | goto (target : LineNumber)
  | gosub (target : LineNumber)
  | ret
  -- the clause is the text that the body is read from, `none` for a bare number
  | branch (condition : List Char) (clause : Option String) (body : Command)
  | loop (header : LoopHeader)
  | next (name : String)
  | finish
  | remark
  | invalid (fault : Fault)
deriving DecidableEq, Repr

namespace Command

def withName (name : List Char) (k : String → Command) : Command :=
  match normalName (String.ofList name) with
  | .ok key => k key
  | .error f => .invalid f

def assignment (name value : List Char) : Command :=
  withName name fun key => .assign key (Text.trim value)

/-- The command that faults because a statement lacks its shape. -/
def malformed (keyword : Keyword) (text : List Char) : Command :=
  .invalid (.malformedStatement keyword (String.ofList text))

/-- A FOR loop with the given parts; `rest` is the text behind the word FOR. -/
def ofLoopText (rest : List Char) (parts : Shape.LoopText) : Command :=
  withName parts.name fun key =>
    .loop ⟨key, parts.start, parts.bound, parts.step, "FOR" ++ String.ofList rest⟩

def ofTrimmed (code : List Char) : Command :=
  match _hk : Shape.keyword? code with
  | none =>
    match Shape.assignment? code with
    | some (name, value) => assignment name value
    | none => .invalid (.unknownCommand (String.ofList (Text.firstWord code)))
  | some (.PRINT, rest) => .print (PrintItem.ofText (Text.trim rest))
  | some (.LET, rest) =>
    match (Shape.afterBlanks? rest).bind Shape.assignment? with
    | some (name, value) => assignment name value
    | none => malformed .LET code
  | some (.INPUT, rest) =>
    match Shape.input? rest with
    | some (prompt, name) => withName name fun key => .input key (String.ofList prompt)
    | none => malformed .INPUT code
  | some (.GOTO, rest) =>
    match Shape.target? rest with
    | some target => .goto target
    | none => malformed .GOTO code
  | some (.GOSUB, rest) =>
    match Shape.target? rest with
    | some target => .gosub target
    | none => malformed .GOSUB code
  | some (.RETURN, _) => .ret
  | some (.IF, rest) =>
    match _hc : Shape.conditional? rest with
    | none => malformed .IF code
    | some (condition, clause) =>
      if clause.all Text.isDigit then .branch condition none (.goto (.ofDigits clause))
      else .branch condition (some (String.ofList clause)) (ofTrimmed clause)
  | some (.FOR, rest) =>
    match Shape.loop? rest with
    | some parts => ofLoopText rest parts
    | none => malformed .FOR ("FOR".toList ++ rest)
  | some (.NEXT, rest) =>
    match Shape.next? rest with
    | some name => withName name .next
    | none => malformed .NEXT ("NEXT".toList ++ rest)
  | some (.END, _) => .finish
  | some (.REM, _) => .remark
termination_by code.length
decreasing_by
  have h₁ := Shape.length_of_keyword? _hk
  have h₂ := Shape.length_of_conditional? _hc
  omega

/-- How a statement is read, by its keyword. -/
theorem ofTrimmed_eq (code : List Char) : ofTrimmed code =
    match Shape.keyword? code with
    | none =>
      match Shape.assignment? code with
      | some (name, value) => assignment name value
      | none => .invalid (.unknownCommand (String.ofList (Text.firstWord code)))
    | some (.PRINT, rest) => .print (PrintItem.ofText (Text.trim rest))
    | some (.LET, rest) =>
      match (Shape.afterBlanks? rest).bind Shape.assignment? with
      | some (name, value) => assignment name value
      | none => malformed .LET code
    | some (.INPUT, rest) =>
      match Shape.input? rest with
      | some (prompt, name) => withName name fun key => .input key (String.ofList prompt)
      | none => malformed .INPUT code
    | some (.GOTO, rest) =>
      match Shape.target? rest with
      | some target => .goto target
      | none => malformed .GOTO code
    | some (.GOSUB, rest) =>
      match Shape.target? rest with
      | some target => .gosub target
      | none => malformed .GOSUB code
    | some (.RETURN, _) => .ret
    | some (.IF, rest) =>
      match Shape.conditional? rest with
      | none => malformed .IF code
      | some (condition, clause) =>
        if clause.all Text.isDigit then .branch condition none (.goto (.ofDigits clause))
        else .branch condition (some (String.ofList clause)) (ofTrimmed clause)
    | some (.FOR, rest) =>
      match Shape.loop? rest with
      | some parts => ofLoopText rest parts
      | none => malformed .FOR ("FOR".toList ++ rest)
    | some (.NEXT, rest) =>
      match Shape.next? rest with
      | some name => withName name .next
      | none => malformed .NEXT ("NEXT".toList ++ rest)
    | some (.END, _) => .finish
    | some (.REM, _) => .remark := by
  rw [ofTrimmed]
  split <;> rename_i hk <;> (rw [hk]; try rfl)
  -- what is left is IF, where it depends on the clause
  split <;> rename_i hc <;> simp only [hc]

def ofText (s : String) : Command := ofTrimmed (Text.trim s.toList)

end Command

end LineBasic
