import LineBasic.Proofs.Assignments
import LineBasic.Proofs.Cancellation
import LineBasic.Proofs.Replacement

/-!
Answers as assignments. Answering an INPUT statement does to the run what a step would do
that executes an assignment in its place: of the answer itself to the variable if it is a
number, and of the answer as a text otherwise.

A run that waits is at an INPUT statement, and that statement is pending, unless an answer
to it was refused because the variable cannot be bound: `waitsAtInput_after`.
-/

namespace LineBasic

open Text

/-- The expression that an answer stands for: a number as it is written, and any other
answer as a text literal. -/
def answerLiteral (answer : String) : String :=
  match readNumber? answer with
  | some _ => trimString answer
  | none => "\"" ++ trimString answer ++ "\""

theorem quote_notMem_trim {cs : List Char} (h : '"' ∉ cs) : '"' ∉ trim cs :=
  fun hmem => h ((infix_trim cs).subset hmem)

/-- The expression is a literal of what the answer binds. -/
theorem isLiteral_answerLiteral {answer : String} (h : '"' ∉ answer.toList) :
    (Interpreter.answerValue (trim answer.toList)).IsLiteral (answerLiteral answer) := by
  have hlist : (trimString answer).toList = trim answer.toList := String.toList_ofList
  unfold Interpreter.answerValue answerLiteral readNumber?
  cases hread : readTrimmedNumber? (trim answer.toList) with
  | some x => exact .number (by rw [hlist, hread])
  | none =>
    have hquoted : "\"" ++ trimString answer ++ "\"" =
        String.ofList ('"' :: (trimString answer).toList ++ ['"']) := by
      rw [← String.toList_inj]
      simp
    simp only [hquoted]
    refine .text ?_
    rw [String.toList_ofList]
    exact quote_notMem_trim h

namespace Interpreter

/-- What is so whenever an interpreter waits: it is at an INPUT statement, and either that
statement is pending or its variable cannot be bound. -/
def WaitsAtInput (i : Interpreter) : Prop :=
  i.status = .waiting → ∃ s name prompt, i.program.statementAt? i.machine.place = some s ∧
    s.action = .input name prompt ∧
    (i.pending = some ⟨name, prompt⟩ ∨ i.pending = none ∧ isName name.toList = false)

section Waits

variable {i k : Interpreter} {requests : List Request} {lines : List String} {answer : String}
  {error : Option ResumeError} {o : Operation}

theorem waitsAtInput_of_not_waiting (h : i.status ≠ .waiting) : i.WaitsAtInput :=
  fun hwaiting => absurd hwaiting h

theorem StepsTo.waitsAtInput (h : i.StepsTo requests k lines) (hi : i.WaitsAtInput) :
    k.WaitsAtInput := by
  have hacted {s : Statement} {effect : Effect} (hs : i.Executes s) :
      (i.acted s effect).status ≠ .waiting := by
    have hstatus : (i.acted s effect).status = .running := hs.1
    simp [hstatus]
  cases h with
  | rest => exact hi
  | stopped | broken | behind | fault | finish =>
    exact waitsAtInput_of_not_waiting (by simp [ended])
  | print hs =>
    refine waitsAtInput_of_not_waiting (status_moveTo_ne (by simp) ?_)
    exact status_asked_ne (by simp) (hacted hs)
  | move hs => exact waitsAtInput_of_not_waiting (status_moveTo_ne (by simp) (hacted hs))
  | oversized hs => exact waitsAtInput_of_not_waiting (hacted hs)
  | @await s effect name prompt hs heffect hawait =>
    refine fun _ => ⟨s, name, prompt, ?_, heffect.eq_input_of_await hawait, .inl rfl⟩
    rw [program_acted, machine_acted, heffect.frame.1]
    exact hs.2.2.2

theorem ResumesTo.waitsAtInput (h : i.ResumesTo answer error k) (hi : i.WaitsAtInput) :
    k.WaitsAtInput := by
  cases h with
  | refused => exact hi
  | @unbindable p f hstatus hp hset =>
    obtain ⟨s, name, prompt, hs, haction, hpending⟩ := hi hstatus
    obtain ⟨hname, -⟩ := Environment.set_eq_error_iff.mp hset
    refine fun _ => ⟨s, name, prompt, hs, haction, .inr ⟨rfl, ?_⟩⟩
    rcases hpending with hsome | ⟨-, hno⟩
    · cases hp.symm.trans hsome
      exact hname
    · exact hno
  | bound => exact waitsAtInput_of_not_waiting (status_moveTo_ne (by simp) (by simp [answered]))

theorem waitsAtInput_operate (hi : i.WaitsAtInput) (ho : o.GoesOn) :
    (i.operate o).value.2.WaitsAtInput := by
  cases o with
  | load program | start program => exact absurd ho id
  | step requests => exact (stepsTo_step requests i).waitsAtInput hi
  | resume answer => exact (resumesTo_resume answer i).waitsAtInput hi
  | requestBreak => exact hi
  | stop =>
    change i.stop.value.WaitsAtInput
    rw [value_stop]
    split
    · exact waitsAtInput_of_not_waiting (by simp [ended])
    · next hactive => exact waitsAtInput_of_not_waiting fun hwaiting => hactive (.inr hwaiting)

/-- Whenever a run waits, it does so at an INPUT statement. -/
theorem waitsAtInput_after {os : List Operation} (hi : i.WaitsAtInput) (hos : ∀ o ∈ os, o.GoesOn) :
    (i.after os).WaitsAtInput := by
  induction os generalizing i with
  | nil => exact hi
  | cons o os ih =>
    obtain ⟨ho, hos⟩ := List.forall_mem_cons.mp hos
    exact ih (waitsAtInput_operate hi ho) hos

end Waits

/-- The interpreter about to execute other code where it is: in a run, which has nothing
pending, and with no break asked for. -/
def executing (code : String) (i : Interpreter) : Interpreter :=
  { i with
    program := i.program.withCode i.machine.place code
    machine := { i.machine with breakRequested := false }
    status := .running
    pending := none }

/-- The interpreter with another program, and with a break asked for or not. -/
def restored (program : Program) (breakRequested : Bool) (i : Interpreter) : Interpreter :=
  { i with program := program, machine := { i.machine with breakRequested := breakRequested } }

section Assignment

variable {i : Interpreter} {s : Statement} {name literal : String} {v : Value}
  {environment : Environment}

/-- A run goes the same way whether a break was asked for or not, up to the next step. -/
theorem value_moveTo_restored {q : Program} (h : q.SameLines i.program) (breakRequested : Bool)
    (index : Nat) : ((i.restored q breakRequested).moveTo index).value =
      (i.moveTo index).value.restored q breakRequested := by
  have hsize : (i.restored q breakRequested).program.size = i.program.size := h.size_eq
  rw [value_moveTo, value_moveTo, hsize]
  split <;> rfl

/-- Going on keeps the program and a break that was asked for, so restoring these undoes
replacing them. -/
theorem restored_moveTo (q : Program) (breakRequested : Bool) (index : Nat) :
    ((i.moveTo index).value.restored q breakRequested).restored i.program
      i.machine.breakRequested = (i.moveTo index).value := by
  rw [value_moveTo]
  split <;> rfl

/-- A step on an assignment in place of another statement binds the value and goes on
behind it. -/
theorem step_of_executing (hs : i.program.statementAt? i.machine.place = some s)
    (hon : i.machine.running = true) (hname : isName name.toList = true)
    (hliteral : v.IsLiteral literal)
    (hset : i.machine.environment.set (upperString name) v = .ok environment)
    (requests : List Request) :
    let code := "LET " ++ name ++ " = " ++ literal
    ((i.executing code).step requests).value =
        ((i.answered environment).moveTo (i.machine.place + 1)).value.restored
          (i.program.withCode i.machine.place code) false ∧
      Event.lines ((i.executing code).step requests).events = [] := by
  intro code
  let assignment : Statement := { s with code := code }
  have hexecutes : (i.executing code).Executes assignment :=
    ⟨rfl, hon, rfl, Program.statementAt?_withCode hs⟩
  have hcommand := command_of_let hname hliteral.hasEdges (s := assignment) rfl
  have hexecution := execution_of_assign (i := i.executing code) hcommand
    (hliteral.evaluateTrimmed _)
  have hset' : (i.executing code).machine.environment.set (upperString name) v = .ok environment :=
    hset
  rw [hset'] at hexecution
  have hout : ((i.executing code).outcome assignment).1 =
      .ok { machine := { (i.executing code).machine with environment := environment } } :=
    outcome_of_execution hexecution
  obtain ⟨hvalue, hlines⟩ := step_of_silent requests hexecutes hout rfl
  -- A literal draws nothing, so the generator stays as well.
  have hacted : (i.executing code).acted assignment
      { machine := { (i.executing code).machine with environment := environment } } =
      (i.answered environment).restored (i.program.withCode i.machine.place code) false := by
    rw [acted, drawn, outcome, hexecution]
    rfl
  rw [hvalue, hlines, hacted]
  exact ⟨value_moveTo_restored (Program.sameLines_withCode _ _ _) _ _, lines_moveTo _ _⟩

end Assignment

/-- Answering INPUT is assignment. Let a run wait at a statement that comes down to INPUT
of an ASCII name, whatever happened to it since the program was started. Then an answer
without double quotes is accepted and leaves what one step leaves that executes in its
place the assignment of the answer to that name: the same interpreter, but for the program
that the assignment is written into and a break that was asked for. Neither outputs a
line. -/
theorem answer_acts_as_assignment (base : Interpreter) (program : Program) {os : List Operation}
    (hos : ∀ o ∈ os, o.GoesOn) {s : Statement} {name prompt answer : String}
    (hname : isName name.toList = true) (hascii : name.toList.all isNameChar = true)
    (haction : s.action = .input (upperString name) prompt) (hanswer : '"' ∉ answer.toList)
    (requests : List Request) :
    let i := (base.operate (.start (some program))).value.2.after os
    i.status = .waiting → i.program.statementAt? i.machine.place = some s →
      let step := (i.executing ("LET " ++ name ++ " = " ++ answerLiteral answer)).step requests
      (i.resume answer).value =
          (none, step.value.restored i.program i.machine.breakRequested) ∧
        Event.lines (i.resume answer).events = [] ∧ Event.lines step.events = [] := by
  intro i hwaiting hs step
  have horderly : i.Orderly := orderly_after (orderly_start _) os
  have hwaits : i.WaitsAtInput :=
    waitsAtInput_after (waitsAtInput_of_not_waiting (by simp [operate, start])) hos
  have hupper : isName (upperString name).toList = true := by
    rw [upperString, String.toList_ofList]
    exact isName_upper_of_isNameChar hname hascii
  have hpending : i.pending = some ⟨upperString name, prompt⟩ := by
    obtain ⟨t, name', prompt', ht, hinput, hpending⟩ := hwaits hwaiting
    cases hs.symm.trans ht
    cases haction.symm.trans hinput
    -- An answer can only have been refused for a name that cannot be bound.
    rcases hpending with hsome | ⟨-, hno⟩
    · exact hsome
    · simp [hupper] at hno
  obtain ⟨environment, hset⟩ :=
    i.machine.environment.exists_set (answerValue (trim answer.toList)) hupper
  obtain ⟨hvalue, hlines⟩ := step_of_executing hs (horderly.running_iff.mpr (.inr hwaiting)) hname
    (isLiteral_answerLiteral hanswer) hset requests
  obtain ⟨hresume, hsilent⟩ := resume_of_set hwaiting hpending hset
  refine ⟨?_, hsilent, hlines⟩
  rw [hresume, hvalue]
  exact congrArg (Prod.mk none)
    (restored_moveTo (i := i.answered environment) _ false (i.machine.place + 1)).symm

/-- An INPUT statement, and one in a branch on the last line. -/
def askingInBranch : Program :=
  (Program.load ["10 INPUT a", "20 IF A > 2 THEN INPUT \"?\"; b1"]).toOption.getD .empty

/-- A number is answered first. Then a break is asked for and a text is answered, which
ends the run. -/
theorem answer_acts_as_assignment_at_askingInBranch :
    let base : Interpreter := { generator := ⟨#[], 0⟩ }
    let start := (base.operate (.start (some askingInBranch))).value.2
    let i := start.after [.step []]
    let j := start.after [.step [], .resume " 3 ", .step [], .requestBreak]
    (i.resume " 3 ").value =
        (none, ((i.executing "LET a = 3").step []).value.restored askingInBranch false) ∧
      (j.resume "no, 3").value =
        (none, ((j.executing "LET b1 = \"no, 3\"").step []).value.restored askingInBranch true) ∧
      (j.resume "no, 3").value.2.status = .halted := by
  intro base start i j
  let first : Statement := ⟨10, "INPUT a", by decide⟩
  let second : Statement := ⟨20, "IF A > 2 THEN INPUT \"?\"; b1", by decide⟩
  have hgoes : ∀ o ∈ [Operation.step []], o.GoesOn := by decide
  have hgoes' : ∀ o ∈ [Operation.step [], .resume " 3 ", .step [], .requestBreak], o.GoesOn := by
    decide
  have haction : first.action = .input (upperString "a") "" := by decide +kernel
  have haction' : second.action = .input (upperString "b1") "?" := by decide +kernel
  have hquote : '"' ∉ " 3 ".toList := by decide
  have hquote' : '"' ∉ "no, 3".toList := by decide
  have hcode : "LET " ++ "a" ++ " = " ++ answerLiteral " 3 " = "LET a = 3" := by decide +kernel
  have hcode' : "LET " ++ "b1" ++ " = " ++ answerLiteral "no, 3" = "LET b1 = \"no, 3\"" := by
    decide +kernel
  have hrestored : i.program = askingInBranch ∧ i.machine.breakRequested = false := by
    decide +kernel
  have hrestored' : j.program = askingInBranch ∧ j.machine.breakRequested = true := by
    decide +kernel
  have hnumber : (i.resume " 3 ").value = _ :=
    (answer_acts_as_assignment base askingInBranch hgoes (by decide +kernel) (by decide +kernel)
      haction hquote [] (by decide +kernel) (by decide +kernel)).1
  have htext : (j.resume "no, 3").value = _ :=
    (answer_acts_as_assignment base askingInBranch hgoes' (by decide +kernel) (by decide +kernel)
      haction' hquote' [] (by decide +kernel) (by decide +kernel)).1
  rw [hcode, hrestored.1, hrestored.2] at hnumber
  rw [hcode', hrestored'.1, hrestored'.2] at htext
  exact ⟨hnumber, htext, by decide +kernel⟩

end Interpreter

end LineBasic
