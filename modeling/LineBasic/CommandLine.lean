import LineBasic.FileTree
import LineBasic.Json.Reader
import LineBasic.Session

/-!
The command line. Options may be abbreviated as long as they stay
unambiguous, a value may be attached by an equals sign, and a double dash ends
the options. With a program file the program is run; without one a session is
opened. The trace goes to a file, which is there as soon as any detail is
asked for.
-/

namespace LineBasic.CommandLine

inductive Flag where
  | help
  | detail
  | throttle
  | seed
  | tree
  | directory
deriving DecidableEq, Repr

structure Options where
  detail : Nat := 0
  throttle : Float := 0.2
  seed : Option Int := none
  tree : Option String := none
  directory : String := "/"
  program : Option String := none
  -- the options whose last given value is none
  valueless : List Flag := []

def flags : List (String × Flag) :=
  [("-h", .help), ("--help", .help), ("-v", .detail), ("--throttle", .throttle),
    ("--seed", .seed), ("--fs", .tree), ("--cwd", .directory)]

def Flag.hasValue : Flag → Bool
  | .help | .detail => false
  | _ => true

inductive Argument where
  | operand (s : String)
  | separator
  | flag (f : Flag) (attached : Option String)
  | cluster (f : Flag) (letters : Option (List Char))
  | unknown
deriving DecidableEq, Repr

def cutAtEquals (cs : List Char) : List Char × Option (List Char) :=
  match cs.dropWhile (· != '=') with
  | [] => (cs, none)
  | _ :: rest => (cs.takeWhile (· != '='), some rest)

def withoutFinalLineFeed (cs : List Char) : List Char :=
  if cs.getLast? = some '\n' then cs.dropLast else cs

/-- Whether a text is a negative number, and so no option. It may end in a line
feed. -/
def isNegativeNumber (cs : List Char) : Bool :=
  match withoutFinalLineFeed cs with
  | '-' :: rest =>
    match rest.dropWhile Text.isDigit with
    | [] => rest != []
    | '.' :: fraction => fraction != [] && fraction.all Text.isDigit
    | _ => false
  | _ => false

/-- Whether an argument begins like an option with a long spelling. -/
def isLong (cs : List Char) : Bool := cs.take 2 == ['-', '-']

/-- The option whose spelling is given in full, with its attached text. -/
def spelled? (spelling : List Char) (attached : Option String) : Option Argument :=
  (flags.lookup (String.ofList spelling)).map fun f => .flag f attached

def abbreviated (start : List Char) (attached : Option String) : List Argument :=
  flags.filterMap fun (spelling, f) =>
    if start.isPrefixOf spelling.toList then some (.flag f attached) else none

/-- The letters behind a one-letter option. An equals sign may stand before
them. -/
def clusterLetters : List Char → Option (List Char)
  | [] => none
  | '=' :: letters => some letters
  | letters => some letters

def cluster? (cs : List Char) : Option Argument :=
  (flags.lookup (String.ofList (cs.take 2))).map fun f => .cluster f (clusterLetters (cs.drop 2))

/-- What an argument is that no option begins: a negative number and a text
with a space are operands. -/
def Argument.ofStray (s : String) : Argument :=
  if isNegativeNumber s.toList || s.toList.contains ' ' then .operand s else .unknown

/-- The form of an argument before any double dash; `none` if it abbreviates
several options. -/
def Argument.ofText? (s : String) : Option Argument :=
  let cs := s.toList
  let (start, attached) := cutAtEquals cs
  if cs.head? ≠ some '-' ∨ cs.length < 2 then some (.operand s)
  else if isLong cs then
    let attached := attached.map String.ofList
    match spelled? start attached, abbreviated start attached with
    | some a, _ => some a
    | none, [a] => some a
    | none, _ :: _ :: _ => none
    | none, [] => some (ofStray s)
  else some ((cluster? cs).getD (ofStray s))

/-- The forms of all arguments. Behind a double dash every argument is an
operand. -/
def Argument.ofTexts? : List String → Option (List Argument)
  | [] => some []
  | s :: rest =>
    if s = "--" then some (.separator :: rest.map .operand)
    else do
      let a ← Argument.ofText? s
      let others ← ofTexts? rest
      return a :: others

/-- The digits of a text in which single underscores stand between digits. -/
def withoutUnderscores? : List Char → Option (List Char)
  | [] => some []
  | [c] => if c = '_' then none else some [c]
  | a :: b :: rest =>
    if a = '_' then none
    else if Text.isDigit a ∧ b = '_' then
      if rest.head?.any Text.isDigit then (withoutUnderscores? rest).map (a :: ·) else none
    else (withoutUnderscores? (b :: rest)).map (a :: ·)

/-- The blanks that may stand around a value: all but the four information
separators. -/
def isPadding (c : Char) : Bool :=
  Text.isBlank c && !(0x1C ≤ c.toNat && c.toNat ≤ 0x1F)

def withoutPadding (cs : List Char) : List Char :=
  ((cs.dropWhile isPadding).reverse.dropWhile isPadding).reverse

def cutSign : List Char → Bool × List Char
  | '-' :: cs => (true, cs)
  | '+' :: cs => (false, cs)
  | cs => (false, cs)

def readInteger? (s : String) : Option Int := do
  let (negative, rest) := cutSign (withoutPadding s.toList)
  let digits ← withoutUnderscores? rest
  if digits ≠ [] ∧ digits.all Text.isDigit ∧ digits.length ≤ Text.maxDigits then
    let n : Int := Text.digitsValue digits
    return if negative then -n else n
  else none

/-- The duration that a text denotes: a number, an infinity, or not a number.
The words for the latter are ASCII, in any case. -/
def readDuration? (s : String) : Option Float := do
  let (negative, rest) := cutSign (withoutPadding s.toList)
  let word := String.ofList (rest.map Char.toUpper)
  if word = "INF" ∨ word = "INFINITY" then return Binary64.infinity negative
  else if word = "NAN" then return Float.ofBits 0x7ff8000000000000
  else
    let digits ← withoutUnderscores? rest
    let x ← Numeral.ofText? digits
    return x.signedValue negative

inductive Parsed where
  | options (o : Options)
  | help
  | bad

/-- Sets the value of an option; `none` if it is malformed. -/
def Options.set? (o : Options) (f : Flag) (value : String) : Option Options :=
  let o := { o with valueless := o.valueless.filter (· != f) }
  match f with
  | .throttle => (readDuration? value).map fun x => { o with throttle := x }
  | .seed => (readInteger? value).map fun n => { o with seed := some n }
  | .tree => some { o with tree := some value }
  | .directory => some { o with directory := value }
  | .help | .detail => none

/-- Sets the value that an equals sign attaches to an option. A double dash is no
value. -/
def Options.attach? (o : Options) (f : Flag) (value : String) : Option Options :=
  if f.hasValue && value == "--" then some { o with valueless := f :: o.valueless }
  else o.set? f value

/-- The one-letter options of given letters; `none` if one of them does not
exist. -/
def flagsOfLetters? : List Char → Option (List Flag)
  | [] => some []
  | c :: cs => do
    let f ← flags.lookup (String.ofList ['-', c])
    let others ← flagsOfLetters? cs
    return f :: others

/-- The one-letter options behind the first one. Letters that are announced by
an equals sign must be there. -/
def clusterTail? : Option (List Char) → Option (List Flag)
  | none => some []
  | some [] => none
  | some letters => flagsOfLetters? letters

/-- Obeys one-letter options in order; `none` if one of them asks for help. -/
def Options.obey? (o : Options) : List Flag → Option Options
  | [] => some o
  | .help :: _ => none
  | _ :: rest => obey? { o with detail := o.detail + 1 } rest

/-- Reads the arguments in order. The first help or malformed option decides;
arguments that nothing takes are found out at the end. -/
def readArguments (leftover : Bool) (o : Options) : List Argument → Parsed
  | [] => if leftover then .bad else .options o
  | .unknown :: rest => readArguments true o rest
  | .cluster f letters :: rest =>
    match clusterTail? letters with
    | none => .bad
    | some others =>
      match o.obey? (f :: others) with
      | some o => readArguments leftover o rest
      | none => .help
  | .flag f (some value) :: rest =>
    match o.attach? f value with
    | some o => readArguments leftover o rest
    | none => .bad
  | .flag .help none :: _ => .help
  | .flag f none :: .operand value :: rest =>
    match o.set? f value with
    | some o => readArguments leftover o rest
    | none => .bad
  | .flag _ none :: _ => .bad
  | .operand s :: .separator :: rest =>
    if o.program.isNone then readArguments leftover { o with program := some s } rest
    else readArguments true o rest
  | .operand s :: rest =>
    if o.program.isNone then readArguments leftover { o with program := some s } rest
    else readArguments true o rest
  | .separator :: rest =>
    if o.program.isNone then readArguments leftover o rest else readArguments true o rest

def parse (args : List String) : Parsed :=
  match Argument.ofTexts? args with
  | some arguments => readArguments false {} arguments
  | none => .bad

def traceFile : String := "debug.txt"

structure Report where
  status : Nat
  output : String := ""
  errors : String := ""
  trace : Option String := none
deriving DecidableEq, Repr

inductive HostFailure where
  | absent
  | directory
  | notDirectory
  | tooLong
  | impossible
deriving DecidableEq, Repr

inductive Breakdown where
  | valueless (f : Flag)
  | host (path : String) (f : HostFailure)
  | treeText (e : Json.SyntaxError)
  | tree (m : Malformation)
  | abort (a : Abort)
deriving DecidableEq, Repr

inductive Outcome where
  | exit (status : Nat)
  | report (r : Report)
  | breakdown (b : Breakdown)
deriving DecidableEq, Repr

def outputText : Event → String
  | .output line => line ++ "\n"
  | .prompt text => if text.isEmpty then "" else text ++ "\n"
  | .command prompt => prompt
  | .trace _ _ | .oversized _ => ""

def traceText : Event → String
  | .trace _ text => text ++ "\n"
  | _ => ""

def inputLines (s : String) : List String :=
  let pieces := Text.stringFields '\n' s
  if pieces.getLast? = some "" then pieces.dropLast else pieces

/-- The program file to run, unless a session is to be opened. -/
def Options.file? (o : Options) : Option String :=
  o.program.filter fun path => !path.isEmpty

/-- The tree file to look into, unless the program is a host's file. -/
def Options.treeFile? (o : Options) : Option String :=
  o.tree.filter fun path => !path.isEmpty && !o.valueless.contains .tree

abbrev HostReader := String → Except HostFailure String

inductive SourceError where
  | unreadable (e : ReadError)
  | breakdown (b : Breakdown)
deriving DecidableEq, Repr

def Options.treeLines (o : Options) (read : HostReader) (treePath path : String) :
    Except SourceError (List String) :=
  match read treePath with
  | .error f => .error (.breakdown (.host treePath f))
  | .ok text =>
    match Json.ofText (Text.unixNewlines text.toList) with
    | .error e => .error (.breakdown (.treeText e))
    | .ok tree =>
      if o.valueless.contains .directory then .error (.breakdown (.valueless .directory))
      else
        match FileTree.readLines tree (Path.resolve [] o.directory) path with
        | .ok lines => .ok lines
        | .error (.malformed m) => .error (.breakdown (.tree m))
        | .error e => .error (.unreadable e)

def hostLines (read : HostReader) (path : String) : Except SourceError (List String) :=
  match read (Path.tidy path) with
  | .ok text => .ok ((Text.lines (Text.unixNewlines text.toList)).map String.ofList)
  | .error .absent | .error .notDirectory | .error .impossible => .error (.unreadable .missing)
  | .error f => .error (.breakdown (.host (Path.tidy path) f))

def Options.sourceLines (o : Options) (read : HostReader) (path : String) :
    Except SourceError (List String) :=
  match o.treeFile? with
  | some treePath => o.treeLines read treePath path
  | none => hostLines read path

/-- The report of a command that ended with a status after some events. -/
def reportOf (o : Options) (status : Nat) (errors : String) (events : List Event) : Outcome :=
  .report {
    status := status
    output := String.join (events.map outputText)
    errors := errors
    trace := if o.detail = 0 then none else some (String.join (events.map traceText)) }

def converse (fuel : Nat) (input : String) (o : Options) (i : Interpreter) : Outcome :=
  let r := Session.loop fuel { commands := inputLines input } { interpreter := i }
  match r.value.abort with
  | some a => .breakdown (.abort a)
  | none => reportOf o 0 "" r.events

/-- How the driver of a program waits between statements. A throttle without a value
is only met where the driver would use it. -/
def Options.pacing (o : Options) : Pacing :=
  .blocking (o.valueless.contains .throttle || 0 < o.throttle)

/-- Runs a loaded program. Without a throttle the run breaks down where it would
pause first. -/
def runProgram (fuel : Nat) (input : String) (o : Options) (i : Interpreter)
    (program : Program) : Outcome :=
  let r := i.run fuel { answers := inputLines input, pacing := o.pacing } program
  if o.valueless.contains .throttle && r.value.pauses != 0 then .breakdown (.valueless .throttle)
  else
    match r.value.abort with
    | some a => .breakdown (.abort a)
    | none => reportOf o (if r.value.interpreter.fault.isSome then 1 else 0) "" r.events

def runFile (fuel : Nat) (read : HostReader) (input : String) (o : Options) (i : Interpreter)
    (path : String) : Outcome :=
  match o.sourceLines read path with
  | .error (.unreadable e) => reportOf o 1 (e.message path ++ "\n") []
  | .error (.breakdown b) => .breakdown b
  | .ok lines =>
    match Program.load lines with
    | .error (.fault f) => reportOf o 1 ("Error: " ++ f.message ++ "\n") []
    | .error a => .breakdown (.abort a)
    | .ok program => runProgram fuel input o i program

/-- Carries out a command. The seed is used if the options give none, `read`
gives the texts of the host's files, and a run ends after `fuel` rounds at the
latest. The trace file is there, and empty, before the program is read. -/
def execute (fuel : Nat) (seed : Nat) (read : HostReader) (input : String)
    (o : Options) : Outcome :=
  let i : Interpreter :=
    { detail := o.detail, generator := Generator.ofSeed ((o.seed.map Int.natAbs).getD seed) }
  let read (path : String) : Except HostFailure String :=
    if o.detail ≠ 0 ∧ path = traceFile then .ok "" else read path
  if o.valueless.contains .seed then .breakdown (.valueless .seed)
  else
    match o.file? with
    | none => converse fuel input o i
    | some path => runFile fuel read input o i path

def run (fuel : Nat) (seed : Nat) (read : HostReader) (input : String)
    (args : List String) : Outcome :=
  match parse args with
  | .help => .exit 0
  | .bad => .exit 2
  | .options o => execute fuel seed read input o

end LineBasic.CommandLine
