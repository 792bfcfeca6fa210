import LineBasic.Machine

/-!
The interpreter runs a program one statement at a time. Between steps, and
while a line is being output, its host may ask for a break or stop the run. An
INPUT statement makes the interpreter wait until the host resumes it with an
answer.

Every operation yields the interpreter after it and the events in order. Notes
become events up to the interpreter's level of detail, and nothing else
depends on that level. An operation that meets a line number that the host does
not read breaks off with the event `oversized`, and leaves the interpreter as it
is by then.
-/

namespace LineBasic

inductive Event where
  | output (line : String)
  | prompt (text : String)
  | command (prompt : String)
  | trace (level : Nat) (text : String)
  | oversized (digits : Nat)
deriving DecidableEq, Repr

structure Logged (α : Type) where
  value : α
  events : List Event := []
deriving DecidableEq

namespace Logged

instance : Monad Logged where
  pure a := ⟨a, []⟩
  bind x f :=
    let y := f x.value
    ⟨y.value, x.events ++ y.events⟩

def event (e : Event) : Logged Unit := ⟨(), [e]⟩

@[simp] theorem value_pure {α : Type} (a : α) : (pure a : Logged α).value = a := rfl

@[simp] theorem events_pure {α : Type} (a : α) : (pure a : Logged α).events = [] := rfl

@[simp] theorem value_bind {α β : Type} (x : Logged α) (f : α → Logged β) :
    (x >>= f).value = (f x.value).value := rfl

@[simp] theorem events_bind {α β : Type} (x : Logged α) (f : α → Logged β) :
    (x >>= f).events = x.events ++ (f x.value).events := rfl

end Logged

inductive Status where
  | idle
  | running
  | waiting
  | halted
deriving DecidableEq, Repr

def Status.word : Status → String
  | .idle => "idle"
  | .running => "running"
  | .waiting => "waiting_for_input"
  | .halted => "halted"

structure Pending where
  name : String
  prompt : String
deriving DecidableEq, Repr

inductive Request where
  | break
  | stop
deriving DecidableEq, Repr

inductive HaltReason where
  | stopped
  | broken
  | programEnd
  | endStatement
  | faulted
deriving DecidableEq, Repr

def HaltReason.words : HaltReason → String
  | .stopped => "stopped"
  | .broken => "break"
  | .programEnd => "end of program"
  | .endStatement => "END"
  | .faulted => "error"

structure Interpreter where
  detail : Nat := 0
  program : Program := .empty
  machine : Machine := {}
  status : Status := .idle
  fault : Option Fault := none
  pending : Option Pending := none
  generator : Generator
deriving DecidableEq

namespace Interpreter

def note (i : Interpreter) (n : Note) : Logged Unit :=
  if n.level ≤ i.detail then Logged.event (.trace n.level n.text) else pure ()

def noteAll (i : Interpreter) : List Note → Logged Unit
  | [] => pure ()
  | n :: ns => do
    i.note n
    i.noteAll ns

def halt (reason : HaltReason) (i : Interpreter) : Logged Interpreter := do
  i.note ⟨1, "halt: " ++ reason.words⟩
  return { i with
    machine := { i.machine with running := false }
    pending := none
    status := .halted }

def requestBreak (i : Interpreter) : Interpreter :=
  { i with machine := { i.machine with breakRequested := true } }

def stop (i : Interpreter) : Logged Interpreter :=
  let i := { i with machine := { i.machine with running := false } }
  if i.status = .running ∨ i.status = .waiting then i.halt .stopped else return i

def handle (i : Interpreter) : List Request → Logged Interpreter
  | [] => return i
  | .break :: rest => i.requestBreak.handle rest
  | .stop :: rest => do
    let i ← i.stop
    i.handle rest

/-- Outputs a line. While it is output the host asks for `requests`. -/
def output (requests : List Request) (line : String) (i : Interpreter) : Logged Interpreter := do
  Logged.event (.output line)
  i.handle requests

def outputAll (requests : List Request) : List String → Interpreter → Logged Interpreter
  | [], i => return i
  | line :: lines, i => do
    let i ← i.output requests line
    i.outputAll requests lines

def fail (requests : List Request) (line : Nat) (f : Fault) (i : Interpreter) :
    Logged Interpreter := do
  let i := { i with fault := some f }
  i.note ⟨1, "error at line " ++ toString line ++ ": " ++ f.kind ++ ": " ++ f.message⟩
  let i ← i.output requests ("Error at line " ++ toString line ++ ": " ++ f.message)
  i.halt .faulted

/-- Goes on at an index; the run ends behind the last statement. -/
def moveTo (index : Nat) (i : Interpreter) : Logged Interpreter :=
  let i := { i with machine := { i.machine with place := index } }
  if i.program.size ≤ index then i.halt .programEnd else return i

def follow (requests : List Request) (line : Nat) (t : Transfer) (i : Interpreter) :
    Logged Interpreter :=
  match t with
  | .advance => i.moveTo (i.machine.place + 1)
  | .moveTo index => i.moveTo index
  | .finish => i.halt .endStatement
  | .await name prompt => return { i with pending := some ⟨name, prompt⟩, status := .waiting }
  | .jump (.line target) =>
    match i.program.indexOf? target with
    | none => i.fail requests line (.missingLine target)
    | some index => do
      i.note ⟨3, "jump " ++ toString line ++ " -> " ++ toString target⟩
      i.moveTo index
  | .jump (.oversized digits) => do
    Logged.event (.oversized digits)
    return i

def execution (s : Statement) (i : Interpreter) : Except Fault Transfer × Execution :=
  let code := Text.trimString s.code
  let exec : Exec Transfer := do
    Exec.noteStatement s.number code
    (Command.ofText code).execute s.number
  exec.run.run { machine := i.machine, generator := i.generator }

/-- Executes a statement and goes where it leads. Whatever the execution has done
is in force, also if it has faulted. -/
def perform (requests : List Request) (s : Statement) (i : Interpreter) :
    Logged Interpreter := do
  let (result, e) := i.execution s
  let i := { i with machine := e.machine, generator := e.generator }
  i.noteAll e.notes
  let i ← i.outputAll requests e.lines
  match result with
  | .error f => i.fail requests s.number f
  | .ok transfer => i.follow requests s.number transfer

/-- Executes at most one statement. At most one line is output, and while it is
output the host asks for `requests`. -/
def step (requests : List Request) (i : Interpreter) : Logged Interpreter :=
  if i.status ≠ .running then return i
  else if !i.machine.running then i.halt .stopped
  else if i.machine.breakRequested then do
    let i ← i.output requests "[BREAK]"
    i.halt .broken
  else
    match i.program.statementAt? i.machine.place with
    | none => i.halt .programEnd
    | some s => i.perform requests s

def load (program : Program) (i : Interpreter) : Interpreter := { i with program := program }

/-- Starts the program from its beginning, with no variables bound. -/
def start (i : Interpreter) : Logged Interpreter := do
  i.note ⟨1, "run: " ++ toString i.program.size ++ " statements"⟩
  return { i with
    machine := { running := true }
    fault := none
    pending := none
    status := .running }

/-- The value of an answer: a number if it is one, and otherwise the trimmed
text. -/
def answerValue (answer : List Char) : Value :=
  match readTrimmedNumber? answer with
  | some x => .number x
  | none => .text (String.ofList answer)

inductive ResumeError where
  | notWaiting
  | fault (f : Fault)
deriving DecidableEq, Repr

/-- Completes the waiting INPUT statement with an answer. The statement is no
longer pending even if its variable cannot be bound. -/
def resume (answer : String) (i : Interpreter) :
    Logged (Option ResumeError × Interpreter) :=
  match i.status, i.pending with
  | .waiting, some pending => do
    let i := { i with pending := none }
    let text := Text.trim answer.toList
    match i.machine.environment.set pending.name (answerValue text) with
    | .error f => return (some (.fault f), i)
    | .ok environment =>
      let i := { i with
        machine := { i.machine with environment := environment }
        status := .running }
      i.note ⟨2, "input " ++ pending.name ++ " = " ++ Text.quote (String.ofList text)⟩
      let i ← i.moveTo (i.machine.place + 1)
      return (none, i)
  | _, _ => return (some .notWaiting, i)

end Interpreter

end LineBasic
