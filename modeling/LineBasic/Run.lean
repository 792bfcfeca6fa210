import LineBasic.Interpreter

/-!
Runs: an interpreter driven to its halt by a script. The script holds the
answers to INPUT, says what happens when they run out, and what the host asks
for while a line is output.

A run may go on for ever, so `drive` counts its rounds down and may stop
before the halt. There are two drivers, which differ in how they wait between
statements.
-/

namespace LineBasic

inductive Exhausted where
  | blank
  | stop (farewell : List String)
deriving DecidableEq, Repr

inductive Pacing where
  | blocking (throttled : Bool)
  -- lets other tasks run, whether it is throttled or not
  | cooperative
deriving DecidableEq, Repr

/-- The pauses behind a statement with which the run goes on. -/
def Pacing.pauses : Pacing → Nat
  | .blocking throttled => throttled.toNat
  | .cooperative => 1

structure Script where
  answers : List String := []
  exhausted : Exhausted := .blank
  -- what is asked for while the line of that number, from one on, is output
  requests : Nat → List Request := fun _ => []
  pacing : Pacing := .blocking false

structure Run where
  interpreter : Interpreter
  answers : List String
  outputs : Nat := 0
  pauses : Nat := 0
  abort : Option Abort := none
deriving DecidableEq

def Event.countOutputs (events : List Event) : Nat :=
  events.countP fun
    | .output _ => true
    | _ => false

/-- The length of the line number that an operation breaks off at. -/
def Event.oversized? (events : List Event) : Option Nat :=
  events.findSome? fun
    | .oversized digits => some digits
    | _ => none

namespace Run

def isOver (r : Run) : Bool := r.interpreter.status = .halted || r.abort.isSome

def awaits (r : Run) : Bool := r.interpreter.status = .waiting && r.abort.isNone

def prompt (r : Run) : String := (r.interpreter.pending.map Pending.prompt).getD ""

def advance (script : Script) (r : Run) : Logged Run := do
  let step := r.interpreter.step (script.requests (r.outputs + 1))
  let i ← step
  let r := { r with
    interpreter := i
    outputs := r.outputs + Event.countOutputs step.events }
  match Event.oversized? step.events with
  | some digits => return { r with abort := some (.oversized digits) }
  | none =>
    if i.status = .running then return { r with pauses := r.pauses + script.pacing.pauses }
    else return r

def answer (r : Run) (text : String) : Logged Run := do
  let (error, i) ← r.interpreter.resume text
  match error with
  | some (.fault f) => return { r with interpreter := i, abort := some (.fault f) }
  | _ => return { r with interpreter := i }

def ask (exhausted : Exhausted) (r : Run) : Logged Run := do
  Logged.event (.prompt r.prompt)
  match r.answers with
  | text :: rest => answer { r with answers := rest } text
  | [] =>
    match exhausted with
    | .blank => r.answer ""
    | .stop farewell => do
      let i ← r.interpreter.stop
      (⟨(), farewell.map .output⟩ : Logged Unit)
      return { r with interpreter := i }

/-- One round: a step, and an answer if the interpreter then waits for one. -/
def round (script : Script) (r : Run) : Logged Run := do
  let r ← r.advance script
  if r.awaits then r.ask script.exhausted else return r

/-- Goes on for at most `fuel` rounds. The events are put behind `log`. -/
def drive (script : Script) : Nat → Run → Array Event → Run × Array Event
  | 0, r, log => (r, log)
  | fuel + 1, r, log =>
    if r.isOver then (r, log)
    else
      let next := r.round script
      drive script fuel next.value (log ++ next.events)

end Run

namespace Interpreter

def begin (program : Program) (answers : List String) (i : Interpreter) : Logged Run := do
  let i ← (i.load program).start
  return { interpreter := i, answers := answers }

/-- Runs a program from its start, for at most `fuel` rounds. -/
def run (fuel : Nat) (script : Script) (program : Program) (i : Interpreter) : Logged Run :=
  let begun := i.begin program script.answers
  let (r, log) := Run.drive script fuel begun.value begun.events.toArray
  ⟨r, log.toList⟩

/-- Runs a program from its start as one task among others. The host has the time between
two statements to itself, but nothing else differs. -/
def runCooperatively (fuel : Nat) (script : Script) (program : Program) (i : Interpreter) :
    Logged Run :=
  i.run fuel { script with pacing := .cooperative } program

end Interpreter

end LineBasic
