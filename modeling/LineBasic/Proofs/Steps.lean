import LineBasic.Proofs.Subroutines

/-!
Everything that a step and an answer can do, once and for all.
`Interpreter.StepsTo` has one constructor for each way a step can end, with the
lines that it outputs, and `Interpreter.stepsTo_step` says that there is no
other; `Interpreter.ResumesTo` and `Interpreter.resumesTo_resume` do the same for
answers. What a property of runs needs of either is then a case analysis.
-/

namespace LineBasic

/-- The index that a statement at `place` goes on at; `none` if it ends the run,
waits for an answer, or leads to a line that does not exist or is not read. -/
def Program.landing? (p : Program) (place : Nat) : Transfer → Option Nat
  | .advance => some (place + 1)
  | .moveTo index => some index
  | .jump (.line target) => p.indexOf? target
  | .jump (.oversized _) => none
  | .finish => none
  | .await _ _ => none

namespace Interpreter

/-- The interpreter once a statement has had its effect, before it goes where
the statement leads. -/
def acted (s : Statement) (effect : Effect) (i : Interpreter) : Interpreter :=
  { i.drawn s with machine := effect.machine }

@[simp] theorem machine_acted (s : Statement) (effect : Effect) (i : Interpreter) :
    (i.acted s effect).machine = effect.machine := rfl

@[simp] theorem program_acted (s : Statement) (effect : Effect) (i : Interpreter) :
    (i.acted s effect).program = i.program := rfl

inductive StepsTo (requests : List Request) (i : Interpreter) : Interpreter → List String → Prop
  | rest (hstatus : i.status ≠ .running) : i.StepsTo requests i []
  | stopped (hstatus : i.status = .running) (hoff : i.machine.running = false) :
      i.StepsTo requests i.ended []
  | broken (hstatus : i.status = .running) (hon : i.machine.running = true)
      (hbreak : i.machine.breakRequested = true) :
      i.StepsTo requests (i.asked requests).ended ["[BREAK]"]
  | behind (hstatus : i.status = .running) (hon : i.machine.running = true)
      (hbreak : i.machine.breakRequested = false)
      (hplace : i.program.statementAt? i.machine.place = none) : i.StepsTo requests i.ended []
  | fault {s : Statement} {f : Fault} (hs : i.Executes s) (hraised : i.raised? s = some f) :
      i.StepsTo requests { i with
        machine := { i.machine with
          returns := i.returnsAtFault s
          running := false
          breakRequested := i.machine.breakRequested || requests.contains .break }
        status := .halted
        fault := some f
        pending := none
        generator := (i.outcome s).2.generator } [errorLine s.number f]
  | print {s : Statement} {effect : Effect} {line : String} (hs : i.Executes s)
      (heffect : i.machine.Allows s.action effect) (hline : effect.output = some line) :
      i.StepsTo requests (((i.acted s effect).asked requests).moveTo (i.machine.place + 1)).value
        [line]
  | move {s : Statement} {effect : Effect} {index : Nat} (hs : i.Executes s)
      (heffect : i.machine.Allows s.action effect)
      (hindex : i.program.landing? i.machine.place effect.transfer = some index) :
      i.StepsTo requests ((i.acted s effect).moveTo index).value []
  | finish {s : Statement} {effect : Effect} (hs : i.Executes s)
      (heffect : i.machine.Allows s.action effect) : i.StepsTo requests (i.acted s effect).ended []
  | await {s : Statement} {effect : Effect} {name prompt : String} (hs : i.Executes s)
      (heffect : i.machine.Allows s.action effect)
      (hawait : effect.transfer = .await name prompt) :
      i.StepsTo requests
        { i.acted s effect with pending := some ⟨name, prompt⟩, status := .waiting } []
  | oversized {s : Statement} {effect : Effect} {digits : Nat} (hs : i.Executes s)
      (heffect : i.machine.Allows s.action effect)
      (hjump : effect.transfer = .jump (.oversized digits))
      (hbreaks : i.breaksOff? s = some digits) : i.StepsTo requests (i.acted s effect) []

section Step

variable {i : Interpreter} {s : Statement} {effect : Effect} (requests : List Request)

/-- A statement without output goes straight on to where it leads. -/
theorem stepsTo_of_silent (hs : i.Executes s) (hout : (i.outcome s).1 = .ok effect)
    (hmissing : ∀ target, effect.transfer = .jump (.line target) →
      i.program.indexOf? target ≠ none) :
    i.StepsTo requests
      ((i.acted s effect).follow requests s.number effect.transfer).value
      (Event.lines ((i.acted s effect).follow requests s.number effect.transfer).events) := by
  have heffect : i.machine.Allows s.action effect := allows_of_outcome hout
  have hplace : effect.machine.place = i.machine.place := heffect.frame.1
  have hmove {index : Nat}
      (hindex : i.program.landing? i.machine.place effect.transfer = some index) :
      i.StepsTo requests ((i.acted s effect).moveTo index).value [] := .move hs heffect hindex
  cases ht : effect.transfer with
  | advance =>
    simp only [follow, machine_acted, lines_moveTo, hplace]
    exact hmove (by rw [ht]; rfl)
  | moveTo index =>
    simp only [follow, lines_moveTo]
    exact hmove (by rw [ht]; rfl)
  | jump target =>
    cases target with
    | oversized digits =>
      refine .oversized hs heffect ht ?_
      rw [breaksOff?, hout]
      exact Transfer.oversized?_eq_some_iff.mpr ht
    | line number =>
      obtain ⟨index, hindex⟩ := Option.ne_none_iff_exists'.mp (hmissing number ht)
      simp only [follow, program_acted, hindex, Logged.value_bind, Logged.events_bind,
        Event.lines_append, lines_note, lines_moveTo, List.append_nil]
      exact hmove (by rw [ht]; exact hindex)
  | finish =>
    simp only [follow, value_halt, lines_halt]
    exact .finish hs heffect
  | await name prompt => exact .await hs heffect ht

/-- A step on a statement without output is going where the statement leads. -/
theorem step_of_silent (hs : i.Executes s) (hout : (i.outcome s).1 = .ok effect)
    (hsilent : effect.output = none) :
    (i.step requests).value =
        ((i.acted s effect).follow requests s.number effect.transfer).value ∧
      Event.lines (i.step requests).events =
        Event.lines ((i.acted s effect).follow requests s.number effect.transfer).events := by
  rw [step_of_executes hs, value_perform_of_ok hout, lines_perform_of_ok hout]
  unfold enact
  rw [hsilent]
  exact ⟨rfl, rfl⟩

/-- A statement that raises nothing has its effect. -/
theorem stepsTo_of_quiet (hs : i.Executes s) (hquiet : i.raised? s = none) :
    i.StepsTo requests (i.step requests).value (Event.lines (i.step requests).events) := by
  unfold raised? at hquiet
  split at hquiet
  · cases hquiet
  · next effect hout =>
    have heffect := allows_of_outcome hout
    cases hline : effect.output with
    | none =>
      obtain ⟨hvalue, hlines⟩ := step_of_silent requests hs hout hline
      rw [hvalue, hlines]
      refine stepsTo_of_silent requests hs hout fun target htarget hmissing => ?_
      simp [htarget, hmissing] at hquiet
    | some line =>
      rw [step_of_executes hs, value_perform_of_ok hout, lines_perform_of_ok hout]
      unfold enact
      have hadvance := heffect.transfer_of_output (by simp [hline])
      have hplace : effect.machine.place = i.machine.place := heffect.frame.1
      have hprint : i.StepsTo requests
          (((i.acted s effect).asked requests).moveTo (i.machine.place + 1)).value [line] :=
        .print hs heffect hline
      simpa [hline, hadvance, follow, hplace, acted] using hprint

end Step

/-- A step does one of these things, and nothing else. -/
theorem stepsTo_step (requests : List Request) (i : Interpreter) :
    i.StepsTo requests (i.step requests).value (Event.lines (i.step requests).events) := by
  by_cases hidle : ∀ s, ¬ i.Executes s
  · unfold step
    split
    · next hstatus => exact .rest hstatus
    · next hrunning =>
      have hstatus : i.status = .running := by simpa using hrunning
      cases hon : i.machine.running with
      | false => simpa using StepsTo.stopped hstatus hon
      | true =>
        cases hbreak : i.machine.breakRequested with
        | true => simpa using StepsTo.broken hstatus hon hbreak
        | false =>
          cases hplace : i.program.statementAt? i.machine.place with
          | none => simpa using StepsTo.behind hstatus hon hbreak hplace
          | some s => exact absurd ⟨hstatus, hon, hbreak, hplace⟩ (hidle s)
  · obtain ⟨s, hs⟩ := Classical.not_forall_not.mp hidle
    cases hraised : i.raised? s with
    | none => exact stepsTo_of_quiet requests hs hraised
    | some f =>
      rw [value_step_of_raised hs hraised, (reports_of_raised hs hraised requests).lines]
      exact .fault hs hraised

/-- The interpreter once an answer has been bound, before it goes on. -/
def answered (environment : Environment) (i : Interpreter) : Interpreter :=
  { i with
    machine := { i.machine with environment := environment }
    status := .running
    pending := none }

inductive ResumesTo (answer : String) (i : Interpreter) : Option ResumeError → Interpreter → Prop
  | refused (hnone : i.status = .waiting → i.pending = none) :
      i.ResumesTo answer (some .notWaiting) i
  | unbindable {p : Pending} {f : Fault} (hstatus : i.status = .waiting) (hp : i.pending = some p)
      (hset : i.machine.environment.set p.name (answerValue (Text.trim answer.toList)) =
        .error f) :
      i.ResumesTo answer (some (.fault f)) { i with pending := none }
  | bound {p : Pending} {environment : Environment} (hstatus : i.status = .waiting)
      (hp : i.pending = some p)
      (hset : i.machine.environment.set p.name (answerValue (Text.trim answer.toList)) =
        .ok environment) :
      i.ResumesTo answer none ((i.answered environment).moveTo (i.machine.place + 1)).value

theorem resumesTo_resume (answer : String) (i : Interpreter) :
    i.ResumesTo answer (i.resume answer).value.1 (i.resume answer).value.2 := by
  unfold resume
  split
  · next p hstatus hp =>
    simp only
    cases hset : i.machine.environment.set p.name (answerValue (Text.trim answer.toList)) with
    | error f => exact .unbindable hstatus hp hset
    | ok environment => exact .bound hstatus hp hset
  · next hother =>
    refine .refused fun hstatus => Option.eq_none_iff_forall_ne_some.mpr fun p hp => ?_
    exact hother p hstatus hp

/-- Completing an INPUT statement binds the value of the answer and goes on behind it. -/
theorem resume_of_set {i : Interpreter} {p : Pending} {answer : String}
    {environment : Environment} (hwaiting : i.status = .waiting)
    (hp : i.pending = some p) (hset : i.machine.environment.set p.name
      (answerValue (Text.trim answer.toList)) = .ok environment) :
    (i.resume answer).value =
        (none, ((i.answered environment).moveTo (i.machine.place + 1)).value) ∧
      Event.lines (i.resume answer).events = [] := by
  unfold resume
  simp only [hwaiting, hp, hset, Logged.events_bind, Event.lines_append, lines_note, lines_moveTo]
  exact ⟨rfl, rfl⟩

section Status

variable {i k : Interpreter} {requests : List Request} {lines : List String} {answer : String}
  {error : Option ResumeError} {o : Operation}

/-- A step of a run that executes no statement ends it. -/
theorem StepsTo.halted_of_idle (h : i.StepsTo requests k lines) (hrunning : i.status = .running)
    (hidle : ∀ s, ¬ i.Executes s) : k.status = .halted := by
  cases h with
  | rest hstatus => exact absurd hrunning hstatus
  | stopped | broken | behind => rfl
  | fault hs | print hs | move hs | finish hs | await hs | oversized hs =>
    exact absurd hs (hidle _)

/-- Neither a request nor going on gives a run a status that it did not have, but for the
end of the run. -/
theorem status_asked_ne {status : Status} (hend : status ≠ .halted) (hi : i.status ≠ status) :
    (i.asked requests).status ≠ status := by
  rcases status_asked requests i with hsame | hhalted
  · rwa [hsame]
  · rw [hhalted]
    exact hend.symm

theorem status_moveTo_ne {status : Status} {index : Nat} (hend : status ≠ .halted)
    (hi : i.status ≠ status) : (i.moveTo index).value.status ≠ status := by
  rw [value_moveTo]
  split
  · exact hend.symm
  · exact hi

theorem StepsTo.status_ne_idle (h : i.StepsTo requests k lines) (hi : i.status ≠ .idle) :
    k.status ≠ .idle := by
  cases h with
  | rest | oversized => exact hi
  | stopped | broken | behind | fault | finish | await => simp [ended]
  | print => exact status_moveTo_ne (by simp) (status_asked_ne (by simp) hi)
  | move => exact status_moveTo_ne (by simp) hi

theorem ResumesTo.status_ne_idle (h : i.ResumesTo answer error k) (hi : i.status ≠ .idle) :
    k.status ≠ .idle := by
  cases h with
  | refused | unbindable => exact hi
  | bound => exact status_moveTo_ne (by simp) (by simp [answered])

/-- An interpreter that was started is never idle again. -/
theorem status_operate_ne_idle (hi : i.status ≠ .idle) (ho : o.GoesOn) :
    (i.operate o).value.2.status ≠ .idle := by
  cases o with
  | load program => exact absurd ho id
  | start program => exact absurd ho id
  | step requests => exact (stepsTo_step requests i).status_ne_idle hi
  | resume answer => exact (resumesTo_resume answer i).status_ne_idle hi
  | requestBreak => exact hi
  | stop =>
    change i.stop.value.status ≠ .idle
    rw [← asked_stop]
    exact status_asked_ne (by simp) hi

theorem status_after_ne_idle {os : List Operation} (hi : i.status ≠ .idle)
    (hos : ∀ o ∈ os, o.GoesOn) : (i.after os).status ≠ .idle := by
  induction os generalizing i with
  | nil => exact hi
  | cons o os ih =>
    obtain ⟨ho, hos⟩ := List.forall_mem_cons.mp hos
    exact ih (status_operate_ne_idle hi ho) hos

end Status

end Interpreter

end LineBasic
