import LineBasic.Proofs.Clauses
import LineBasic.Proofs.Containment
import LineBasic.Proofs.Draws

/-!
What is left of a statement that faults. Variables, loops and the place are as
they were before the step, and nothing is output but the report of the fault,
since no command writes or outputs anything before the last thing in it that can
fault (`Command.endsAs_execute`). The one trace that a statement can leave,
besides the numbers that it drew, is the index that a call puts on top of the
indices to return to before its line is looked for.
-/

namespace LineBasic

namespace Interpreter

/-- The indices to return to after a statement has faulted: those before it,
below the index behind the statement if it comes to a call of a missing line. -/
def returnsAtFault (s : Statement) (i : Interpreter) : List Nat :=
  match i.reached? s with
  | some (.gosub (.line target)) =>
    if i.program.indexOf? target = none then (i.machine.place + 1) :: i.machine.returns
    else i.machine.returns
  | _ => i.machine.returns

/-- Once a run has ended, what the host asked for shows only in the flag of a
break. -/
theorem ended_asked (requests : List Request) (i : Interpreter) :
    (i.asked requests).ended = { i with
      machine := { i.machine with
        running := false
        breakRequested := i.machine.breakRequested || requests.contains .break }
      pending := none
      status := .halted } := by
  unfold asked
  simp only
  split <;> rfl

section Raised

variable {i : Interpreter} {s : Statement} {f : Fault}

theorem returnsAtFault_of_error (h : (i.outcome s).1 = .error f) :
    i.returnsAtFault s = i.machine.returns := by
  unfold returnsAtFault
  split
  · next target hreached =>
    rw [outcome_of_gosub hreached] at h
    cases h
  · rfl

/-- A fault is raised while the statement is executed, or behind a jump or a
call, which only has changed the indices to return to. -/
theorem outcome_of_raised (h : i.raised? s = some f) :
    (i.outcome s).1 = .error f ∨ ∃ effect target, (i.outcome s).1 = .ok effect ∧
      effect.transfer = .jump (.line target) ∧ i.program.indexOf? target = none ∧
      f = .missingLine target ∧
      effect.machine = { i.machine with returns := i.returnsAtFault s } := by
  unfold raised? at h
  split at h
  · next g hout =>
    cases h
    exact .inl hout
  · next effect hout =>
    split at h
    · next target htarget =>
      split at h
      · next hmissing =>
        cases h
        refine .inr ⟨effect, target, hout, htarget, hmissing, rfl, ?_⟩
        rcases reached_of_jump hout htarget with ⟨hreached, hmachine⟩ | ⟨hreached, hmachine⟩
        · simp [returnsAtFault, hreached, hmachine]
        · simp [returnsAtFault, hreached, hmissing, hmachine]
      · cases h
    · cases h

/-- The interpreter behind a step whose statement raises a fault. -/
theorem value_step_of_raised (hexecutes : i.Executes s) (hf : i.raised? s = some f)
    (requests : List Request) :
    (i.step requests).value = { i with
      machine := { i.machine with
        returns := i.returnsAtFault s
        running := false
        breakRequested := i.machine.breakRequested || requests.contains .break }
      status := .halted
      fault := some f
      pending := none
      generator := (i.outcome s).2.generator } := by
  rw [step_of_executes hexecutes]
  rcases outcome_of_raised hf with hout | ⟨effect, target, hout, htarget, hmissing, rfl, hmachine⟩
  · rw [value_perform_of_error hout, value_fail, ended_asked, returnsAtFault_of_error hout]
    rfl
  · have heffect := allows_of_outcome hout
    rw [value_perform_of_ok hout,
      enact_of_missing (i := i.drawn s) heffect htarget hmissing requests s.number, value_fail,
      ended_asked, hmachine]
    rfl

end Raised

/-- A step that faults leaves the interpreter as it was, the run ended with the
fault, but for the numbers drawn, the index behind a call of a missing line, and
a break that the host asked for while the fault was reported. The report is the
only line. -/
theorem step_of_fault {i : Interpreter} {f : Fault} {requests : List Request}
    (hnone : i.fault = none) (hf : (i.step requests).value.fault = some f) :
    ∃ s n, i.Executes s ∧
      (i.step requests).value = { i with
        machine := { i.machine with
          returns := i.returnsAtFault s
          running := false
          breakRequested := i.machine.breakRequested || requests.contains .break }
        status := .halted
        fault := some f
        pending := none
        generator := i.generator.skip n } ∧
      Event.lines (i.step requests).events = [errorLine s.number f] := by
  obtain ⟨s, hexecutes, hraised⟩ := exists_raised_of_fault hnone hf
  obtain ⟨n, hn⟩ := i.exists_skip_outcome s
  refine ⟨s, n, hexecutes, ?_, (reports_of_raised hexecutes hraised requests).lines⟩
  rw [value_step_of_raised hexecutes hraised requests, hn]

def callOfMissing : Program :=
  (Program.load ["10 LET A = 1", "20 IF A = 1 THEN IF RND < 2 THEN GOSUB 50"]).toOption.getD .empty

/-- The variable and the place are kept, and the index behind the call is left. -/
theorem step_of_fault_in_clause :
    let i := (((⟨0, .empty, {}, .idle, none, none, ⟨#[], 0⟩⟩ : Interpreter).operate
      (.start (some callOfMissing))).value.2.operate (.step [])).value.2
    let step := i.step [.break]
    step.value.machine = { i.machine with
      returns := [2], running := false, breakRequested := true } ∧
    step.value.machine.environment.get? "A" = some (.number 1) ∧
    Event.lines step.events = ["Error at line 20: Line 50 does not exist"] := by
  intro i step
  have hnone : i.fault = none := by decide +kernel
  have hf : step.value.fault = some (.missingLine 50) := by decide +kernel
  obtain ⟨s, n, hexecutes, hvalue, hlines⟩ := step_of_fault hnone hf
  have hs : s = ⟨20, "IF A = 1 THEN IF RND < 2 THEN GOSUB 50", by decide⟩ := by
    have hplace : i.program.statementAt? i.machine.place = some
        ⟨20, "IF A = 1 THEN IF RND < 2 THEN GOSUB 50", by decide⟩ := by decide +kernel
    exact Option.some.inj (hexecutes.2.2.2.symm.trans hplace)
  have hreturns : i.returnsAtFault s = [2] := by
    subst hs
    decide +kernel
  have hbreak : i.machine.breakRequested = false := hexecutes.2.2.1
  refine ⟨?_, ?_, ?_⟩
  · rw [hvalue, hreturns, hbreak]
    rfl
  · have hbound : i.machine.environment.get? "A" = some (.number 1) := by decide +kernel
    rw [hvalue]
    exact hbound
  · rw [hlines, hs]
    decide +kernel

end Interpreter

end LineBasic
