import LineBasic.Run

/-!
The interactive session. A line that starts with a number is stored under it,
or deletes what is stored there if nothing follows; RUN, LIST, NEW and EXIT
act on the stored lines, and the rest of such a line is ignored. A line whose
number the host does not read breaks the session off and is not stored.
-/

namespace LineBasic

structure Session where
  interpreter : Interpreter
  lines : Std.ExtTreeMap Nat String compare := ∅
  active : Bool := true
deriving DecidableEq

structure Feed where
  commands : List String := []
  -- `none` if they are taken from the command lines
  answers : Option (List String) := none
  exhausted : Exhausted := .blank
deriving DecidableEq, Repr

namespace Feed

def available (f : Feed) : List String := f.answers.getD f.commands

/-- The feed with `rest` left of the lines that answers are taken from. -/
def withAvailable (f : Feed) (rest : List String) : Feed :=
  match f.answers with
  | some _ => { f with answers := some rest }
  | none => { f with commands := rest }

end Feed

namespace Session

def banner : List String := ["NEXTOS BASIC v0.1", "================", ""]

/-- What a session prints when the host stops the running program. -/
def farewell : List String := ["", "[Program stopped]", ""]

def commandPrompt : String := "> "

structure Reply where
  session : Session
  feed : Feed
  abort : Option Abort := none
deriving DecidableEq

def Reply.goesOn (r : Reply) : Bool := r.session.active && r.abort.isNone

def print (lines : List String) : Logged Unit := ⟨(), lines.map .output⟩

/-- Stores code under a number, or deletes what is stored there. -/
def store (number : Nat) (code : String) (s : Session) : Session :=
  if code.isEmpty then { s with lines := s.lines.erase number }
  else { s with lines := s.lines.insert number code }

/-- The stored lines as a program's text, in ascending order. -/
def source (s : Session) : List String :=
  s.lines.toList.map fun (number, code) => toString number ++ " " ++ code

/-- A number with blanks in front, so that it takes at least four columns. -/
def padded (number : Nat) : String :=
  let digits := toString number
  String.ofList (List.replicate (4 - digits.length) ' ') ++ digits

def listing (s : Session) : List String :=
  s.lines.toList.map fun (number, code) => padded number ++ " " ++ code

inductive Entry where
  | nothing
  | store (number : Nat) (code : String)
  | run
  | list
  | new
  | exit
  | unknown
  | oversized (digits : Nat)
deriving DecidableEq, Repr

def Entry.ofText (line : String) : Entry :=
  match Text.trim line.toList with
  | [] => .nothing
  | cs =>
    let digits := cs.takeWhile Text.isDigit
    if digits ≠ [] then
      match LineNumber.ofDigits digits with
      | .line number => .store number (String.ofList (Text.trim (cs.dropWhile Text.isDigit)))
      | .oversized n => .oversized n
    else
      let word := String.ofList (Text.upper (Text.firstWord cs))
      if word = "RUN" then .run
      else if word = "LIST" then .list
      else if word = "NEW" then .new
      else if word = "EXIT" then .exit
      else .unknown

def conclude (feed : Feed) (r : Run) (s : Session) : Logged Reply := do
  if r.abort.isNone then print ["READY"]
  return {
    session := { s with interpreter := r.interpreter }
    feed := feed.withAvailable r.answers
    abort := r.abort }

def run (fuel : Nat) (feed : Feed) (s : Session) : Logged Reply :=
  match Program.load s.source with
  | .error (.fault f) => do
    print ["Error: " ++ f.message, "READY"]
    return { session := s, feed := feed }
  | .error e => return { session := s, feed := feed, abort := some e }
  | .ok program => do
    let script : Script := { answers := feed.available, exhausted := feed.exhausted }
    let r ← s.interpreter.run fuel script program
    s.conclude feed r

def handle (fuel : Nat) (feed : Feed) (s : Session) (line : String) : Logged Reply :=
  match Entry.ofText line with
  | .nothing => return { session := s, feed := feed }
  | .store number code => return { session := s.store number code, feed := feed }
  | .run => s.run fuel feed
  | .list => do
    print s.listing
    return { session := s, feed := feed }
  | .new =>
    let i := s.interpreter
    return {
      session := { s with
        lines := ∅
        interpreter := { i with machine := { i.machine with environment := .empty } } }
      feed := feed }
  | .exit => return { session := { s with active := false }, feed := feed }
  | .unknown => do
    print ["SYNTAX ERROR"]
    return { session := s, feed := feed }
  | .oversized digits =>
    return { session := s, feed := feed, abort := some (.oversized digits) }

def stop (s : Session) : Logged Session := do
  let i ← s.interpreter.stop
  print farewell
  return { s with interpreter := i }

/-- Reads command lines while the session goes on and there are any. -/
def converse (runFuel : Nat) : Nat → Reply → Logged Reply
  | 0, r => return r
  | fuel + 1, r =>
    if r.goesOn then do
      Logged.event (.command commandPrompt)
      match r.feed.commands with
      | [] => return r
      | line :: rest => do
        let r ← r.session.handle runFuel { r.feed with commands := rest } line
        converse runFuel fuel r
    else return r

/-- Prints the banner and reads command lines. Every command line is read at
most once, so the conversation ends. -/
def loop (runFuel : Nat) (feed : Feed) (s : Session) : Logged Reply := do
  print banner
  converse runFuel (feed.commands.length + 1) { session := s, feed := feed }

end Session

end LineBasic
