import LineBasic.Command.Basic
import LineBasic.Condition
import LineBasic.Program

/-!
The machine that a running program works on, and what each command does to it.
An execution changes the machine as it goes along, and what it has written and
output by the time it faults stays written and output. That there is nothing of
the kind by then is a theorem (`Command.endsAs_execute`).

While a command is executed it leaves notes, each with a level of detail.
-/

namespace LineBasic

structure ForLoop where
  bound : Float
  step : Float
  start : Nat
deriving DecidableEq

def ForLoop.continuesAt (loop : ForLoop) (x : Float) : Bool :=
  (0 < loop.step && x ≤ loop.bound) || (loop.step < 0 && loop.bound ≤ x)

structure Machine where
  environment : Environment := .empty
  -- the innermost first
  returns : List Nat := []
  loops : Std.ExtTreeMap String ForLoop compare := ∅
  -- the index of the next statement
  place : Nat := 0
  running : Bool := false
  breakRequested : Bool := false
deriving DecidableEq

inductive Transfer where
  | advance
  | jump (target : LineNumber)
  | moveTo (index : Nat)
  | finish
  | await (name prompt : String)
deriving DecidableEq, Repr

structure Note where
  level : Nat
  text : String
deriving DecidableEq, Repr

structure Execution where
  machine : Machine
  generator : Generator
  notes : List Note := []
  lines : List String := []
deriving DecidableEq

/-- A part of an execution. If it faults, the execution is left as it is by then. -/
abbrev Exec := ExceptT Fault (StateM Execution)

namespace Exec

def note (level : Nat) (text : String) : Exec Unit :=
  modify fun e => { e with notes := e.notes ++ [⟨level, text⟩] }

def output (line : String) : Exec Unit :=
  modify fun e => { e with lines := e.lines ++ [line] }

def machine : Exec Machine := return (← get).machine

def change (f : Machine → Machine) : Exec Unit :=
  modify fun e => { e with machine := f e.machine }

def eval {α : Type} (x : Environment → Eval Fault α) : Exec α :=
  ExceptT.mk (modifyGet fun e =>
    let (r, g) := (x e.machine.environment).run.run e.generator
    (r, { e with generator := g }))

def ofExcept {α : Type} (r : Except Fault α) : Exec α := ExceptT.mk (pure r)

def assign (name : String) (v : Value) : Exec Unit := do
  let environment ← ofExcept ((← machine).environment.set name v)
  change fun m => { m with environment := environment }

end Exec

def truthWord (b : Bool) : String := if b then "True" else "False"

/-- Decides a trimmed condition, noting its expanded form and the result. -/
def Exec.decides (condition : List Char) : Exec Bool := do
  let expanded := Condition.expand (← machine).environment condition
  note 3 ("condition " ++ Text.quote (String.ofList condition) ++ " -> "
    ++ Text.quote (String.ofList expanded))
  let b ← eval fun env => Condition.holds env condition
  note 3 ("condition result " ++ truthWord b)
  return b

def Exec.noteStatement (line : Nat) (code : String) : Exec Unit :=
  note 2 (toString line ++ " " ++ code)

/-- The value of the step of a loop, which is one if none is given. -/
def LoopHeader.stepValue (env : Environment) (h : LoopHeader) : Eval Fault Value :=
  match h.step with
  | some step => evaluateTrimmed env step
  | none => pure (.number 1)

/-- Starts a loop with the values of its three expressions. -/
def LoopHeader.enter (h : LoopHeader) : Value → Value → Value → Exec Transfer
  | .number start, .number bound, .number step =>
    if step == 0 then throw .zeroStep
    else do
      Exec.assign h.name (.number start)
      Exec.change fun m => { m with loops := m.loops.insert h.name ⟨bound, step, m.place⟩ }
      return .advance
  | _, _, _ => throw (.nonNumericBounds h.text)

/-- Starts a loop. The three expressions are evaluated in order before anything
is checked. -/
def LoopHeader.execute (h : LoopHeader) : Exec Transfer := do
  let start ← Exec.eval fun env => evaluateTrimmed env h.start
  let bound ← Exec.eval fun env => evaluateTrimmed env h.bound
  let step ← Exec.eval h.stepValue
  h.enter start bound step

/-- Steps the loop of a variable: back behind its FOR statement if it goes on,
and otherwise past the NEXT statement, the loop being over. -/
def Exec.nextRound (name : String) : Exec Transfer := do
  let m ← machine
  match m.loops[name]? with
  | none => throw (.nextWithoutFor name)
  | some loop =>
    match ← ofExcept (m.environment.get name) with
    | .text _ => throw (.nonNumericLoopVariable name)
    | .number x => do
      assign name (.number (x + loop.step))
      if loop.continuesAt (x + loop.step) then return .moveTo (loop.start + 1)
      else do
        change fun m => { m with loops := m.loops.erase name }
        return .advance

def Command.execute (line : Nat) : Command → Exec Transfer
  | .print items => do
    let text ← Exec.eval fun env => PrintItem.line env false items
    Exec.output text
    return .advance
  | .assign name value => do
    let v ← Exec.eval fun env => evaluateTrimmed env value
    Exec.assign name v
    return .advance
  | .input name prompt => return .await name prompt
  | .goto target => return .jump target
  | .gosub target => do
    -- The index is there before the target is read or looked for.
    Exec.change fun m => { m with returns := (m.place + 1) :: m.returns }
    return .jump target
  | .ret => do
    match (← Exec.machine).returns with
    | [] => throw .returnWithoutGosub
    | index :: returns => do
      Exec.change fun m => { m with returns := returns }
      return .moveTo index
  | .branch condition clause body => do
    if ← Exec.decides condition then
      match clause with
      | some code => Exec.noteStatement line code
      | none => pure ()
      body.execute line
    else return .advance
  | .loop header => header.execute
  | .next name => Exec.nextRound name
  | .finish => return .finish
  | .remark => return .advance
  | .invalid fault => throw fault

end LineBasic
