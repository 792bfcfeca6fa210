import LineBasic.Proofs.Effects
import LineBasic.Run

/-!
What each operation of an interpreter does, in closed form. `asked` is the
interpreter after its host asked for something while a line was output, and
`Event.lines` are the lines among events; notes and halts output none. Nothing breaks off
(`Event.oversized?`) but a statement that leads to a line.
-/

namespace LineBasic

def Event.lines (events : List Event) : List String :=
  events.filterMap fun
    | .output line => some line
    | _ => none

namespace Event

@[simp] theorem lines_nil : lines [] = [] := rfl

@[simp] theorem lines_append (xs ys : List Event) : lines (xs ++ ys) = lines xs ++ lines ys :=
  List.filterMap_append

@[simp] theorem lines_output (line : String) (events : List Event) :
    lines (.output line :: events) = line :: lines events := rfl

@[simp] theorem oversized?_nil : oversized? [] = none := rfl

@[simp] theorem oversized?_append (xs ys : List Event) :
    oversized? (xs ++ ys) = (oversized? xs).or (oversized? ys) :=
  List.findSome?_append

@[simp] theorem oversized?_output (line : String) (events : List Event) :
    oversized? (.output line :: events) = oversized? events := rfl

end Event

namespace Interpreter

@[simp] theorem lines_note (i : Interpreter) (n : Note) : Event.lines (i.note n).events = [] := by
  unfold note
  split <;> rfl

@[simp] theorem oversized?_note (i : Interpreter) (n : Note) :
    Event.oversized? (i.note n).events = none := by
  unfold note
  split <;> rfl

@[simp] theorem lines_noteAll (i : Interpreter) (ns : List Note) :
    Event.lines (i.noteAll ns).events = [] := by
  induction ns with
  | nil => rfl
  | cons n ns ih => simp [noteAll, ih]

@[simp] theorem oversized?_noteAll (i : Interpreter) (ns : List Note) :
    Event.oversized? (i.noteAll ns).events = none := by
  induction ns with
  | nil => rfl
  | cons n ns ih => simp [noteAll, ih]

def ended (i : Interpreter) : Interpreter :=
  { i with machine := { i.machine with running := false }, pending := none, status := .halted }

@[simp] theorem value_halt (reason : HaltReason) (i : Interpreter) :
    (i.halt reason).value = i.ended := rfl

@[simp] theorem lines_halt (reason : HaltReason) (i : Interpreter) :
    Event.lines (i.halt reason).events = [] := by
  simp [halt]

@[simp] theorem oversized?_halt (reason : HaltReason) (i : Interpreter) :
    Event.oversized? (i.halt reason).events = none := by
  simp [halt]

def isActive (i : Interpreter) : Prop := i.status = .running ∨ i.status = .waiting

instance (i : Interpreter) : Decidable i.isActive := inferInstanceAs (Decidable (_ ∨ _))

theorem value_stop (i : Interpreter) :
    i.stop.value =
      if i.isActive then i.ended
      else { i with machine := { i.machine with running := false } } := by
  unfold stop
  split <;> simp_all [isActive, ended]

@[simp] theorem lines_stop (i : Interpreter) : Event.lines i.stop.events = [] := by
  unfold stop
  simp only
  split <;> simp

@[simp] theorem oversized?_stop (i : Interpreter) : Event.oversized? i.stop.events = none := by
  unfold stop
  simp only
  split <;> simp

def asked (requests : List Request) (i : Interpreter) : Interpreter :=
  let stops : Bool := requests.contains .stop
  let i := { i with
    machine := { i.machine with
      running := i.machine.running && !stops
      breakRequested := i.machine.breakRequested || requests.contains .break } }
  if stops ∧ i.isActive then i.ended else i

section Asked

variable (requests : List Request) (i : Interpreter)

/-- What a host asks for touches neither program nor place. -/
@[simp] theorem program_asked : (i.asked requests).program = i.program := by
  simp only [asked]
  split <;> rfl

@[simp] theorem fault_asked : (i.asked requests).fault = i.fault := by
  simp only [asked]
  split <;> rfl

@[simp] theorem place_asked : (i.asked requests).machine.place = i.machine.place := by
  simp only [asked]
  split <;> rfl

@[simp] theorem returns_asked : (i.asked requests).machine.returns = i.machine.returns := by
  simp only [asked]
  split <;> rfl

@[simp] theorem loops_asked : (i.asked requests).machine.loops = i.machine.loops := by
  simp only [asked]
  split <;> rfl

@[simp] theorem environment_asked :
    (i.asked requests).machine.environment = i.machine.environment := by
  simp only [asked]
  split <;> rfl

/-- A host can end a run but not start one. -/
theorem status_asked :
    (i.asked requests).status = i.status ∨ (i.asked requests).status = .halted := by
  simp only [asked]
  split
  · exact .inr rfl
  · exact .inl rfl

end Asked

@[simp] theorem value_handle (requests : List Request) (i : Interpreter) :
    (i.handle requests).value = i.asked requests := by
  induction requests generalizing i with
  | nil => simp [handle, asked]
  | cons r rest ih =>
    cases r with
    | «break» =>
      have hstop : (Request.break :: rest).contains .stop = rest.contains .stop := rfl
      have hbreak : (Request.break :: rest).contains .break = true := rfl
      rw [handle, ih]
      simp only [asked, requestBreak, isActive, hstop, hbreak, Bool.or_true, Bool.true_or]
    | stop =>
      simp only [handle, Logged.value_bind, value_stop, ih, isActive]
      by_cases hactive : i.status = .running ∨ i.status = .waiting
      · simp [asked, hactive, ended, isActive]
      · simp [asked, hactive, isActive]

theorem asked_break (i : Interpreter) : i.asked [.break] = i.requestBreak :=
  (value_handle [.break] i).symm

theorem asked_stop (i : Interpreter) : i.asked [.stop] = i.stop.value :=
  (value_handle [.stop] i).symm

@[simp] theorem lines_handle (requests : List Request) (i : Interpreter) :
    Event.lines (i.handle requests).events = [] := by
  induction requests generalizing i with
  | nil => rfl
  | cons r rest ih => cases r <;> simp [handle, ih]

@[simp] theorem oversized?_handle (requests : List Request) (i : Interpreter) :
    Event.oversized? (i.handle requests).events = none := by
  induction requests generalizing i with
  | nil => rfl
  | cons r rest ih => cases r <;> simp [handle, ih]

@[simp] theorem value_output (requests : List Request) (line : String) (i : Interpreter) :
    (i.output requests line).value = i.asked requests := by
  simp [output]

@[simp] theorem lines_output (requests : List Request) (line : String) (i : Interpreter) :
    Event.lines (i.output requests line).events = [line] := by
  simp [output, Logged.event]

@[simp] theorem oversized?_output (requests : List Request) (line : String) (i : Interpreter) :
    Event.oversized? (i.output requests line).events = none := by
  simp [output, Logged.event]

def errorLine (line : Nat) (f : Fault) : String :=
  "Error at line " ++ toString line ++ ": " ++ f.message

@[simp] theorem value_fail (requests : List Request) (line : Nat) (f : Fault) (i : Interpreter) :
    (i.fail requests line f).value = ({ i with fault := some f }.asked requests).ended := by
  simp [fail]

@[simp] theorem lines_fail (requests : List Request) (line : Nat) (f : Fault) (i : Interpreter) :
    Event.lines (i.fail requests line f).events = [errorLine line f] := by
  simp only [fail, Logged.events_bind, Event.lines_append, lines_note, lines_output, lines_halt,
    List.nil_append, List.append_nil]
  rfl

@[simp] theorem oversized?_fail (requests : List Request) (line : Nat) (f : Fault)
    (i : Interpreter) : Event.oversized? (i.fail requests line f).events = none := by
  simp [fail]

def placed (index : Nat) (i : Interpreter) : Interpreter :=
  { i with machine := { i.machine with place := index } }

theorem value_moveTo (index : Nat) (i : Interpreter) :
    (i.moveTo index).value =
      if i.program.size ≤ index then (i.placed index).ended else i.placed index := by
  unfold moveTo
  simp only
  split <;> rfl

@[simp] theorem lines_moveTo (index : Nat) (i : Interpreter) :
    Event.lines (i.moveTo index).events = [] := by
  unfold moveTo
  simp only
  split <;> simp

@[simp] theorem oversized?_moveTo (index : Nat) (i : Interpreter) :
    Event.oversized? (i.moveTo index).events = none := by
  unfold moveTo
  simp only
  split <;> simp

/-- The interpreter with the numbers drawn that executing a statement draws. -/
def drawn (s : Statement) (i : Interpreter) : Interpreter :=
  { i with generator := (i.outcome s).2.generator }

section Perform

variable {requests : List Request} {s : Statement} {i : Interpreter}

theorem value_perform_of_error {f : Fault} (h : (i.outcome s).1 = .error f) :
    (i.perform requests s).value = ((i.drawn s).fail requests s.number f).value := by
  simp only [perform_eq, Logged.value_bind, h]
  rfl

theorem lines_perform_of_error {f : Fault} (h : (i.outcome s).1 = .error f) :
    Event.lines (i.perform requests s).events = [errorLine s.number f] := by
  simp only [perform_eq, Logged.events_bind, Event.lines_append, lines_noteAll, List.nil_append, h]
  exact lines_fail requests s.number f _

theorem oversized?_perform_of_error {f : Fault} (h : (i.outcome s).1 = .error f) :
    Event.oversized? (i.perform requests s).events = none := by
  simp [perform_eq, h]

theorem value_perform_of_ok {effect : Effect} (h : (i.outcome s).1 = .ok effect) :
    (i.perform requests s).value = ((i.drawn s).enact requests s.number effect).value := by
  simp only [perform_eq, Logged.value_bind, h]
  rfl

theorem lines_perform_of_ok {effect : Effect} (h : (i.outcome s).1 = .ok effect) :
    Event.lines (i.perform requests s).events =
      Event.lines ((i.drawn s).enact requests s.number effect).events := by
  simp only [perform_eq, Logged.events_bind, Event.lines_append, lines_noteAll, List.nil_append, h]
  rfl

theorem oversized?_perform_of_ok {effect : Effect} (h : (i.outcome s).1 = .ok effect) :
    Event.oversized? (i.perform requests s).events =
      Event.oversized? ((i.drawn s).enact requests s.number effect).events := by
  simp [perform_eq, h, drawn]

end Perform

end Interpreter

namespace Run

variable (script : Script) (r : Run)

def firstStep (script : Script) (r : Run) : Logged Interpreter :=
  r.interpreter.step (script.requests (r.outputs + 1))

@[simp] theorem interpreter_advance :
    (r.advance script).value.interpreter = (r.firstStep script).value := by
  simp only [advance, Logged.value_bind]
  split
  · rfl
  · split <;> rfl

@[simp] theorem answers_advance : (r.advance script).value.answers = r.answers := by
  simp only [advance, Logged.value_bind]
  split
  · rfl
  · split <;> rfl

@[simp] theorem abort_advance : (r.advance script).value.abort =
    ((Event.oversized? (r.firstStep script).events).map .oversized).or r.abort := by
  simp only [advance, Logged.value_bind, firstStep]
  split
  · next h =>
    rw [h]
    rfl
  · next h =>
    rw [h]
    split <;> rfl

@[simp] theorem events_advance : (r.advance script).events = (r.firstStep script).events := by
  simp only [advance, Logged.events_bind]
  split
  · exact List.append_nil _
  · split <;> exact List.append_nil _

end Run

end LineBasic
