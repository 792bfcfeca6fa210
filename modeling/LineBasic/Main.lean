import LineBasic.CommandLine

/-!
The program. It carries out a command line on the host's files and streams, one
step at a time, so that output appears while a run goes on.
-/

namespace LineBasic.Main

open CommandLine

structure Host where
  input : IO.FS.Stream
  output : IO.FS.Stream
  trace : Option IO.FS.Handle

def Host.show (host : Host) (events : List Event) : IO Unit := do
  for e in events do
    host.output.putStr (outputText e)
    if let some trace := host.trace then
      trace.putStr (traceText e)
      trace.flush
  host.output.flush

def Host.tell {α : Type} (host : Host) (x : Logged α) : IO α := do
  host.show x.events
  return x.value

def Host.readLine? (host : Host) : IO (Option String) := do
  let line ← host.input.getLine
  if line.isEmpty then return none
  return (inputLines line).head?

def pause (throttle : Float) : UInt32 :=
  if 0 < throttle then (throttle * 1000).toUInt32 else 0

/-- Goes on with a run until nothing is left to do. These are the rounds of `Run.round`,
but answers are read when they are asked for. -/
partial def drive (host : Host) (throttle : Float) (r : Run) : IO Run := do
  if r.isOver then return r
  let next ← host.tell (r.advance { pacing := .blocking (0 < throttle) })
  if next.awaits then
    host.show [.prompt next.prompt]
    let answered ← host.tell (next.answer ((← host.readLine?).getD ""))
    drive host throttle answered
  else
    if r.pauses < next.pauses then IO.sleep (pause throttle)
    drive host throttle next

def runProgram (host : Host) (throttle : Float) (program : Program) (i : Interpreter) :
    IO Run := do
  drive host throttle (← host.tell (i.begin program []))

/-- Does what a typed line asks for, as `Session.handle` does, but with a run that reads
its answers when it asks for them. -/
def handle (host : Host) (throttle : Float) (s : Session) (line : String) :
    IO Session.Reply := do
  match Session.Entry.ofText line, Program.load s.source with
  | .run, .ok program =>
    let r ← runProgram host throttle program s.interpreter
    host.tell (s.conclude {} r)
  | _, _ => host.tell (s.handle 0 {} line)

/-- Reads command lines while the session goes on and there are any. -/
partial def converse (host : Host) (throttle : Float) (r : Session.Reply) :
    IO Session.Reply := do
  if !r.goesOn then return r
  host.show [.command Session.commandPrompt]
  match ← host.readLine? with
  | none => return r
  | some line => converse host throttle (← handle host throttle r.session line)

def readFile (path : String) : IO (Except HostFailure String) := do
  try
    return .ok (← IO.FS.readFile path)
  catch
    | .noFileOrDirectory .. => return .error .absent
    | .inappropriateType .. => return .error .notDirectory
    | _ => return .error .directory

def hostWords : HostFailure → String
  | .absent => "no such file"
  | .directory => "a directory"
  | .notDirectory => "not in a directory"
  | .tooLong => "name too long"
  | .impossible => "no possible file"

def describe : Breakdown → String
  | .valueless _ => "an option lacks its value"
  | .host path f => hostWords f ++ ": " ++ path
  | .treeText e => e.message
  | .tree m => (ReadError.malformed m).reason
  | .abort (.fault f) => f.kind ++ ": " ++ f.message
  | .abort (.oversized digits) => "a line number of " ++ toString digits ++ " digits"

def reportBreakdown (b : Breakdown) : IO UInt32 := do
  IO.eprintln (describe b)
  return 1

def execute (o : Options) : IO UInt32 := do
  let trace ← if o.detail = 0 then pure none else
    some <$> IO.FS.Handle.mk traceFile .write
  let host : Host := { input := ← IO.getStdin, output := ← IO.getStdout, trace := trace }
  let seed ← match o.seed with
    | some n => pure n.natAbs
    | none => IO.rand 0 0x3fffffffffffffff
  let i : Interpreter := { detail := o.detail, generator := Generator.ofSeed seed }
  if o.valueless.contains .seed then return ← reportBreakdown (.valueless .seed)
  match o.file? with
  | none =>
    host.show (Session.banner.map .output)
    let reply ← converse host o.throttle { session := { interpreter := i }, feed := {} }
    match reply.abort with
    | some a => reportBreakdown (.abort a)
    | none => return 0
  | some path =>
    let text ← readFile (o.treeFile?.getD (Path.tidy path))
    match o.sourceLines (fun _ => text) path with
    | .error (.unreadable e) =>
      IO.eprintln (e.message path)
      return 1
    | .error (.breakdown b) => reportBreakdown b
    | .ok lines =>
      match Program.load lines with
      | .error (.fault f) =>
        IO.eprintln ("Error: " ++ f.message)
        return 1
      | .error a => reportBreakdown (.abort a)
      | .ok program =>
        let r ← runProgram host o.throttle program i
        match r.abort with
        | some a => reportBreakdown (.abort a)
        | none => return (if r.interpreter.fault.isSome then 1 else 0)

end LineBasic.Main

def main (args : List String) : IO UInt32 :=
  match LineBasic.CommandLine.parse args with
  | .help => do
    IO.println "usage: [-h] [-v] [--throttle S] [--seed N] [--fs FS_JSON] [--cwd DIR] [program]"
    return 0
  | .bad => do
    IO.eprintln "bad arguments"
    return 2
  | .options o => LineBasic.Main.execute o
