import LineBasic.Proofs.Invariant

/-!
Where faults go. A fault of a statement ends the run within the same step and
is reported by one line, the last one of the run. The one fault that gets past
the run loop is that of an answer whose variable cannot be bound, because the
upper case of its name is no name; such an answer leaves the interpreter
waiting for nothing.

A statement that leads to a line number that the host does not read is no fault. It breaks
the step off, and the interpreter is still in its run at the same place.
-/

namespace LineBasic

/-- The length of the line number that a statement leads to, if the host does not read it. -/
def Transfer.oversized? : Transfer → Option Nat
  | .jump (.oversized digits) => some digits
  | _ => none

theorem Transfer.oversized?_eq_some_iff {t : Transfer} {digits : Nat} :
    t.oversized? = some digits ↔ t = .jump (.oversized digits) := by
  unfold oversized?
  split
  · simp
  · next hother => simpa using hother digits

namespace Interpreter

def Executes (i : Interpreter) (s : Statement) : Prop :=
  i.status = .running ∧ i.machine.running = true ∧ i.machine.breakRequested = false ∧
    i.program.statementAt? i.machine.place = some s

/-- The fault that a statement raises: while it is executed, or because it
leads to a line that the program does not have. -/
def raised? (s : Statement) (i : Interpreter) : Option Fault :=
  match (i.outcome s).1 with
  | .error f => some f
  | .ok effect =>
    match effect.transfer with
    | .jump (.line target) =>
      if i.program.indexOf? target = none then some (.missingLine target) else none
    | _ => none

/-- The length of the line number at which a statement breaks off. -/
def breaksOff? (s : Statement) (i : Interpreter) : Option Nat :=
  match (i.outcome s).1 with
  | .error _ => none
  | .ok effect => effect.transfer.oversized?

structure Reports (i : Interpreter) (line : Nat) (f : Fault) (step : Logged Interpreter) :
    Prop where
  halted : step.value.status = .halted
  fault : step.value.fault = some f
  program : step.value.program = i.program
  place : step.value.machine.place = i.machine.place
  lines : Event.lines step.events = [errorLine line f]

section Step

variable {i : Interpreter} {s : Statement} {f : Fault}

theorem step_of_executes (h : i.Executes s) (requests : List Request) :
    i.step requests = i.perform requests s := by
  obtain ⟨hrunning, hon, hbreak, hs⟩ := h
  simp [step, hrunning, hon, hbreak, hs]

/-- A step that ends like a failure from the same place reports the fault. -/
theorem reports_of_fail {line : Nat} {j : Interpreter} {step : Logged Interpreter}
    (requests : List Request) (hprogram : j.program = i.program)
    (hplace : j.machine.place = i.machine.place)
    (hvalue : step.value = (j.fail requests line f).value)
    (hlines : Event.lines step.events = [errorLine line f]) : i.Reports line f step where
  halted := by simp [hvalue, ended]
  fault := by simp [hvalue, ended]
  program := by simpa [hvalue, ended] using hprogram
  place := by simpa [hvalue, ended] using hplace
  lines := hlines

/-- A jump to a missing line outputs nothing but its report. -/
theorem enact_of_missing {target : Nat} {effect : Effect} {c : Command}
    (heffect : i.machine.Allows c effect) (htarget : effect.transfer = .jump (.line target))
    (hmissing : i.program.indexOf? target = none) (requests : List Request) (line : Nat) :
    i.enact requests line effect =
      { i with machine := effect.machine }.fail requests line (.missingLine target) := by
  have hout : effect.output = none := heffect.output_eq_none (by simp [htarget])
  have hfollow : { i with machine := effect.machine }.follow requests line
      (.jump (.line target)) =
      { i with machine := effect.machine }.fail requests line (.missingLine target) := by
    simp only [follow, hmissing]
  rw [← hfollow, ← htarget]
  simp only [enact, hout]
  rfl

/-- A fault that a statement raises ends the step that executes it, and is
reported by the only line of that step. -/
theorem reports_of_raised (h : i.Executes s) (hf : i.raised? s = some f)
    (requests : List Request) : i.Reports s.number f (i.step requests) := by
  rw [step_of_executes h]
  unfold raised? at hf
  split at hf
  · next g hout =>
    cases hf
    exact reports_of_fail (j := i.drawn s) requests rfl rfl (value_perform_of_error hout)
      (lines_perform_of_error hout)
  · next effect hout =>
    have heffect := allows_of_outcome hout
    split at hf
    · next target htarget =>
      split at hf
      · next hmissing =>
        cases hf
        have henact := enact_of_missing (i := i.drawn s) heffect htarget hmissing requests s.number
        refine reports_of_fail (j := { i.drawn s with machine := effect.machine }) requests rfl
          heffect.frame.1 ?_ ?_
        · rw [value_perform_of_ok hout, henact]
        · rw [lines_perform_of_ok hout, henact, lines_fail]
      · cases hf
    · cases hf

theorem fault_moveTo (index : Nat) (i : Interpreter) :
    (i.moveTo index).value.fault = i.fault := by
  rw [value_moveTo]
  split <;> rfl

/-- A statement that raises nothing leaves no fault. -/
theorem fault_enact {requests : List Request} {line : Nat} {effect : Effect}
    (h : ∀ target, effect.transfer = .jump (.line target) → i.program.indexOf? target ≠ none) :
    (i.enact requests line effect).value.fault = i.fault := by
  have hmid (j : Interpreter) (hprogram : j.program = i.program) (hfault : j.fault = i.fault) :
      (j.follow requests line effect.transfer).value.fault = i.fault := by
    cases ht : effect.transfer with
    | advance => exact (fault_moveTo _ _).trans hfault
    | moveTo index => exact (fault_moveTo _ _).trans hfault
    | finish => exact hfault
    | await name prompt => exact hfault
    | jump target =>
      cases target with
      | oversized digits => exact hfault
      | line number =>
        have hfound := h number ht
        rw [← hprogram] at hfound
        simp only [follow]
        split
        · next hmissing => exact absurd hmissing hfound
        · exact (fault_moveTo _ _).trans hfault
  unfold enact
  cases effect.output with
  | none => exact hmid _ rfl rfl
  | some text =>
    simp only [Logged.value_bind, value_output]
    exact hmid _ (by simp) (by simp)

/-- A step that executes no statement at most ends the run, possibly after it
has output that a break was asked for. -/
theorem step_of_idle (h : ∀ s, ¬ i.Executes s) (requests : List Request) :
    i.step requests = pure i ∨ (∃ reason, i.step requests = i.halt reason) ∨
      i.step requests = i.output requests "[BREAK]" >>= halt .broken := by
  unfold step
  split
  · exact .inl rfl
  · next hrunning =>
    split
    · exact .inr (.inl ⟨_, rfl⟩)
    · next hon =>
      split
      · exact .inr (.inr rfl)
      · next hbreak =>
        split
        · exact .inr (.inl ⟨_, rfl⟩)
        · next s hs =>
          have hexecutes : i.Executes s :=
            ⟨by simpa using hrunning, by simpa using hon, by simpa using hbreak, hs⟩
          exact absurd hexecutes (h s)

theorem value_step_of_idle (h : ∀ s, ¬ i.Executes s) (requests : List Request) :
    (i.step requests).value = i ∨ (i.step requests).value = i.ended ∨
      (i.step requests).value = (i.asked requests).ended := by
  rcases step_of_idle h requests with hstep | ⟨reason, hstep⟩ | hstep <;> rw [hstep]
  · exact .inl rfl
  · exact .inr (.inl rfl)
  · exact .inr (.inr (by simp))

/-- A statement that raises nothing has an effect, and its step puts it into
force. -/
theorem exists_effect_of_quiet (hexecutes : i.Executes s) (hquiet : i.raised? s = none)
    (requests : List Request) : ∃ effect, (i.outcome s).1 = .ok effect ∧
      (i.step requests).value = ((i.drawn s).enact requests s.number effect).value ∧
      (i.step requests).value.fault = i.fault := by
  rw [step_of_executes hexecutes]
  unfold raised? at hquiet
  split at hquiet
  · cases hquiet
  · next effect hout =>
    refine ⟨effect, hout, value_perform_of_ok hout, ?_⟩
    rw [value_perform_of_ok hout]
    refine (fault_enact ?_).trans rfl
    intro target htarget
    simp only [htarget] at hquiet
    split at hquiet
    · cases hquiet
    · next hfound => exact hfound

/-- A step leaves no fault but the one that the statement it executes raises. -/
theorem fault_step (h : ∀ s, i.Executes s → i.raised? s = none) (requests : List Request) :
    (i.step requests).value.fault = i.fault := by
  by_cases hidle : ∀ s, ¬ i.Executes s
  · rcases value_step_of_idle hidle requests with hvalue | hvalue | hvalue <;>
      simp [hvalue, ended]
  · obtain ⟨s, hexecutes⟩ := Classical.not_forall_not.mp hidle
    obtain ⟨_, _, _, hfault⟩ := exists_effect_of_quiet hexecutes (h s hexecutes) requests
    exact hfault

/-- A fault that a step leaves behind was raised by the statement that it
executed. -/
theorem exists_raised_of_fault {requests : List Request} (hnone : i.fault = none)
    (hf : (i.step requests).value.fault = some f) :
    ∃ s, i.Executes s ∧ i.raised? s = some f := by
  by_cases hquiet : ∀ s, i.Executes s → i.raised? s = none
  · rw [fault_step hquiet requests, hnone] at hf
    cases hf
  · obtain ⟨s, hs⟩ := Classical.not_forall.mp hquiet
    obtain ⟨hexecutes, hsome⟩ := Classical.not_imp.mp hs
    obtain ⟨g, hg⟩ := Option.ne_none_iff_exists'.mp hsome
    rw [(reports_of_raised hexecutes hg requests).fault] at hf
    cases hf
    exact ⟨s, hexecutes, hg⟩

/-- No step changes the program. -/
theorem program_moveTo (index : Nat) (i : Interpreter) :
    (i.moveTo index).value.program = i.program := by
  rw [value_moveTo]
  split <;> rfl

theorem program_follow {requests : List Request} {line : Nat} (t : Transfer) (i : Interpreter) :
    (i.follow requests line t).value.program = i.program := by
  cases t with
  | advance => exact program_moveTo _ _
  | moveTo index => exact program_moveTo _ _
  | finish => rfl
  | await name prompt => rfl
  | jump target =>
    cases target with
    | oversized digits => rfl
    | line number =>
      simp only [follow]
      split
      · simp [ended]
      · exact program_moveTo _ _

theorem program_enact {requests : List Request} {line : Nat} (effect : Effect) (i : Interpreter) :
    (i.enact requests line effect).value.program = i.program := by
  unfold enact
  cases effect.output with
  | none => exact program_follow _ _
  | some text =>
    simp only [Logged.value_bind, value_output]
    exact (program_follow _ _).trans (by simp)

theorem program_step (requests : List Request) (i : Interpreter) :
    (i.step requests).value.program = i.program := by
  by_cases hidle : ∀ s, ¬ i.Executes s
  · rcases value_step_of_idle hidle requests with hvalue | hvalue | hvalue <;>
      simp [hvalue, ended]
  · obtain ⟨s, hexecutes⟩ := Classical.not_forall_not.mp hidle
    rw [step_of_executes hexecutes]
    cases hout : (i.outcome s).1 with
    | error f => simp [value_perform_of_error hout, ended, drawn]
    | ok effect => rw [value_perform_of_ok hout, program_enact, drawn]

theorem oversized?_follow (requests : List Request) (line : Nat) (t : Transfer)
    (i : Interpreter) : Event.oversized? (i.follow requests line t).events = t.oversized? := by
  cases t with
  | advance => exact oversized?_moveTo _ _
  | moveTo index => exact oversized?_moveTo _ _
  | finish => exact oversized?_halt _ _
  | await name prompt => rfl
  | jump target =>
    cases target with
    | oversized digits => rfl
    | line number =>
      simp only [follow]
      split
      · exact oversized?_fail _ _ _ _
      · simp [Transfer.oversized?]

/-- A step breaks off exactly where the statement it executes does. -/
theorem oversized?_step (h : i.Executes s) (requests : List Request) :
    Event.oversized? (i.step requests).events = i.breaksOff? s := by
  rw [step_of_executes h]
  unfold breaksOff?
  cases hout : (i.outcome s).1 with
  | error f => exact oversized?_perform_of_error hout
  | ok effect =>
    rw [oversized?_perform_of_ok hout]
    unfold enact
    cases effect.output with
    | none => exact oversized?_follow _ _ _ _
    | some text =>
      simp only [Logged.events_bind, Event.oversized?_append, oversized?_output, Option.none_or]
      exact oversized?_follow _ _ _ _

theorem oversized?_step_of_idle (h : ∀ s, ¬ i.Executes s) (requests : List Request) :
    Event.oversized? (i.step requests).events = none := by
  rcases step_of_idle h requests with hstep | ⟨reason, hstep⟩ | hstep <;> rw [hstep]
  · rfl
  · exact oversized?_halt _ _
  · simp

theorem exists_breaksOff_of_oversized {requests : List Request} {digits : Nat}
    (h : Event.oversized? (i.step requests).events = some digits) :
    ∃ s, i.Executes s ∧ i.breaksOff? s = some digits := by
  by_cases hidle : ∀ s, ¬ i.Executes s
  · rw [oversized?_step_of_idle hidle] at h
    cases h
  · obtain ⟨s, hexecutes⟩ := Classical.not_forall_not.mp hidle
    exact ⟨s, hexecutes, (oversized?_step hexecutes requests).symm.trans h⟩

/-- A statement that breaks off has had its effect, and the run is still at it. -/
theorem step_of_breaksOff {digits : Nat} (h : i.Executes s)
    (hbreaks : i.breaksOff? s = some digits) (requests : List Request) :
    ∃ effect, (i.outcome s).1 = .ok effect ∧ effect.transfer = .jump (.oversized digits) ∧
      (i.step requests).value = { i.drawn s with machine := effect.machine } ∧
      Event.lines (i.step requests).events = [] := by
  unfold breaksOff? at hbreaks
  split at hbreaks
  · cases hbreaks
  · next effect hout =>
    have htransfer := Transfer.oversized?_eq_some_iff.mp hbreaks
    have hsilent : effect.output = none :=
      (allows_of_outcome hout).output_eq_none (by simp [htransfer])
    have henact : (i.drawn s).enact requests s.number effect =
        ⟨{ i.drawn s with machine := effect.machine }, [.oversized digits]⟩ := by
      unfold enact
      rw [hsilent, htransfer]
      rfl
    refine ⟨effect, hout, htransfer, ?_, ?_⟩
    · rw [step_of_executes h, value_perform_of_ok hout, henact]
    · rw [step_of_executes h, lines_perform_of_ok hout, henact]
      rfl

end Step

section Resume

variable {i : Interpreter} {p : Pending} {answer : String} {f : Fault}

/-- An answer leads to a fault exactly when the pending name is no name. -/
theorem resume_eq_fault_iff (hwaiting : i.status = .waiting) (hp : i.pending = some p) :
    (i.resume answer).value.1 = some (.fault f) ↔
      isName p.name.toList = false ∧ f = .invalidName p.name := by
  unfold resume
  simp only [hwaiting, hp]
  split
  · next g hset =>
    rw [← Environment.set_eq_error_iff (f := f), hset]
    simp
  · next environment hset =>
    rw [← Environment.set_eq_error_iff (f := f), hset]
    simp

/-- Such an answer leaves the interpreter as it was, but with nothing pending. -/
theorem resume_of_fault (hwaiting : i.status = .waiting) (hp : i.pending = some p)
    (hf : (i.resume answer).value.1 = some (.fault f)) :
    (i.resume answer).value.2 = { i with pending := none } := by
  unfold resume at hf ⊢
  simp only [hwaiting, hp] at hf ⊢
  split
  · simp
  · next environment hset => simp [hset] at hf

theorem program_resume (answer : String) (i : Interpreter) :
    (i.resume answer).value.2.program = i.program := by
  unfold resume
  split
  · simp only
    split
    · rfl
    · exact program_moveTo _ _
  · rfl

/-- A run that an answer completes or that did not wait is no longer waiting. -/
theorem resume_of_fine (hp : i.pending = some p)
    (hfine : ∀ f, (i.resume answer).value.1 ≠ some (.fault f)) :
    (i.resume answer).value.2.status ≠ .waiting ∧
      (i.resume answer).value.2.fault = i.fault := by
  unfold resume at hfine ⊢
  split
  · next pending hwaiting hpending =>
    simp only [hwaiting, hpending] at hfine ⊢
    split
    · next f hset => simp [hset] at hfine
    · next environment hset =>
      simp only [Logged.value_bind, value_moveTo]
      split <;> simp [ended, placed]
  · next hother => exact ⟨fun hwaiting => hother p hwaiting hp, rfl⟩

end Resume

end Interpreter

namespace Run

/-- Whether an answer to the INPUT statement at the place leads to the fault:
its variable has no name. -/
def Unbindable (i : Interpreter) (f : Fault) : Prop :=
  ∃ s name prompt, i.program.statementAt? i.machine.place = some s ∧
    s.action = .input name prompt ∧ isName name.toList = false ∧ f = .invalidName name

/-- Whether the statement at the place leads to a line number that the host does not
read. -/
def Unread (i : Interpreter) (digits : Nat) : Prop :=
  ∃ s, i.program.statementAt? i.machine.place = some s ∧
    (s.action = .goto (.oversized digits) ∨ s.action = .gosub (.oversized digits))

structure Contained (program : Program) (r : Run) (lines : List String) : Prop where
  keeps : r.interpreter.program = program
  sound : r.abort = none → r.interpreter.Sound ∧ r.interpreter.status ≠ .waiting
  reported : ∀ f, r.interpreter.fault = some f → ∃ s before,
    program.statementAt? r.interpreter.machine.place = some s ∧
      lines = before ++ [Interpreter.errorLine s.number f]
  escaped : ∀ f, r.abort = some (.fault f) → r.interpreter.fault = none ∧
    r.interpreter.status = .waiting ∧ r.interpreter.pending = none ∧ Unbindable r.interpreter f
  broken : ∀ digits, r.abort = some (.oversized digits) → r.interpreter.fault = none ∧
    r.interpreter.status = .running ∧ Unread r.interpreter digits

section Round

variable {program : Program} {r : Run} {lines : List String}

theorem contained_start (i : Interpreter) (answers : List String) :
    Contained i.program { interpreter := i.start.value, answers := answers } [] where
  keeps := rfl
  sound _ := ⟨Interpreter.sound_start i, by simp [Interpreter.start]⟩
  reported := by simp [Interpreter.start]
  escaped := by simp
  broken := by simp

/-- An answer completes the INPUT statement, or leads to a fault because its
variable has no name. -/
theorem contained_answer {text : String} (hprogram : r.interpreter.program = program)
    (hsound : r.interpreter.Sound) (hwaiting : r.interpreter.status = .waiting)
    (hfault : r.interpreter.fault = none) (hr : r.abort = none) :
    Contained program (r.answer text).value lines := by
  obtain ⟨p, hp⟩ := Option.isSome_iff_exists.mp (hsound.pending_iff.mpr hwaiting)
  by_cases hfine : ∀ f, (r.interpreter.resume text).value.1 ≠ some (.fault f)
  · obtain ⟨hstatus, hnone⟩ := Interpreter.resume_of_fine hp hfine
    have hvalue : (r.answer text).value =
        { r with interpreter := (r.interpreter.resume text).value.2 } := by
      simp only [answer, Logged.value_bind]
      rfl
    rw [hvalue]
    exact {
      keeps := (Interpreter.program_resume text r.interpreter).trans hprogram
      sound := fun _ => ⟨Interpreter.sound_resume hsound hfine, hstatus⟩
      reported := fun f hf => by simp [hnone, hfault] at hf
      escaped := fun f hf => by simp [hr] at hf
      broken := fun digits hdigits => by simp [hr] at hdigits }
  · obtain ⟨f, hf⟩ := Classical.not_forall_not.mp hfine
    have hvalue : (r.answer text).value =
        { r with
          interpreter := { r.interpreter with pending := none }
          abort := some (.fault f) } := by
      simp only [answer, Logged.value_bind, hf, Interpreter.resume_of_fault hwaiting hp hf]
      rfl
    obtain ⟨hname, rfl⟩ := (Interpreter.resume_eq_fault_iff hwaiting hp).mp hf
    obtain ⟨s, hs, haction⟩ := hsound.pending_source p hp
    rw [hvalue]
    exact {
      keeps := hprogram
      sound := by simp
      reported := fun f hf => by simp [hfault] at hf
      escaped := fun f hf => by
        cases hf
        exact ⟨hfault, hwaiting, rfl, s, p.name, p.prompt, hs, haction, hname, rfl⟩
      broken := by simp }

/-- Asking for an answer outputs nothing that reports a fault. -/
theorem contained_ask {exhausted : Exhausted} {lines' : List String}
    (hprogram : r.interpreter.program = program) (hsound : r.interpreter.Sound)
    (hwaiting : r.interpreter.status = .waiting) (hfault : r.interpreter.fault = none)
    (hr : r.abort = none) : Contained program (r.ask exhausted).value lines' := by
  unfold ask
  cases r.answers with
  | cons text rest => exact contained_answer hprogram hsound hwaiting hfault hr
  | nil =>
    cases exhausted with
    | blank => exact contained_answer hprogram hsound hwaiting hfault hr
    | stop farewell =>
      have hstop : r.interpreter.stop.value = r.interpreter.ended := by
        simp [Interpreter.value_stop, Interpreter.isActive, hwaiting]
      exact {
        keeps := by simpa [hstop, Interpreter.ended] using hprogram
        sound := fun _ => by
          simp only [Logged.value_bind, Logged.value_pure, hstop]
          exact ⟨Interpreter.sound_ended hsound.place_le hsound.within, by simp [Interpreter.ended]⟩
        reported := fun f hf => by simp [hstop, Interpreter.ended, hfault] at hf
        escaped := fun f hf => by simp [hr] at hf
        broken := fun digits hdigits => by simp [hr] at hdigits }

/-- Behind a step the fault of the interpreter, if any, is reported by the last
line. -/
theorem reported_step (requests : List Request) (lines : List String)
    (hprogram : r.interpreter.program = program) (hfault : r.interpreter.fault = none) (f : Fault)
    (hf : (r.interpreter.step requests).value.fault = some f) : ∃ s before,
    program.statementAt? (r.interpreter.step requests).value.machine.place = some s ∧
      lines ++ Event.lines (r.interpreter.step requests).events =
        before ++ [Interpreter.errorLine s.number f] := by
  obtain ⟨s, hexecutes, hraised⟩ := Interpreter.exists_raised_of_fault hfault hf
  have hreports := Interpreter.reports_of_raised hexecutes hraised requests
  refine ⟨s, lines, ?_, by rw [hreports.lines]⟩
  rw [hreports.place, ← hprogram]
  exact hexecutes.2.2.2

/-- A step and the pause behind it keep the run contained, unless an answer is to be asked
for: what the step raises is reported by its only line, and where it breaks off the
statement is still at the place. -/
theorem contained_advance (script : Script) (h : r.Contained program lines)
    (hover : r.isOver = false) (hawaits : (r.advance script).value.awaits = false) :
    Contained program (r.advance script).value
      (lines ++ Event.lines (r.firstStep script).events) := by
  simp only [isOver, Bool.or_eq_false_iff, decide_eq_false_iff_not] at hover
  have hr : r.abort = none := by simpa using hover.2
  have hsound := (h.sound hr).1
  have hfault : r.interpreter.fault = none :=
    Option.not_isSome_iff_eq_none.mp fun hsome => hover.1 (hsound.halted_of_fault hsome)
  have habort (a : Abort) (ha : (r.advance script).value.abort = some a) :
      ∃ digits, a = .oversized digits ∧
        Event.oversized? (r.firstStep script).events = some digits := by
    rw [abort_advance, hr, Option.or_none, Option.map_eq_some_iff] at ha
    obtain ⟨digits, hdigits, rfl⟩ := ha
    exact ⟨digits, rfl, hdigits⟩
  exact {
    keeps := by
      rw [interpreter_advance]
      exact (Interpreter.program_step _ _).trans h.keeps
    sound := fun hnone => by
      have hstep := Interpreter.sound_step hsound (script.requests (r.outputs + 1))
      refine ⟨by rwa [interpreter_advance], fun hwaiting => ?_⟩
      rw [awaits, hnone, hwaiting] at hawaits
      cases hawaits
    reported := fun f hf => by
      rw [interpreter_advance] at hf ⊢
      exact reported_step _ lines h.keeps hfault f hf
    escaped := fun f hf => by
      obtain ⟨_, heq, _⟩ := habort _ hf
      cases heq
    broken := fun digits hdigits => by
      obtain ⟨_, heq, hoversized⟩ := habort _ hdigits
      cases heq
      obtain ⟨s, hexecutes, hbreaks⟩ := Interpreter.exists_breaksOff_of_oversized hoversized
      obtain ⟨effect, hout, htransfer, hvalue, -⟩ :=
        Interpreter.step_of_breaksOff hexecutes hbreaks (script.requests (r.outputs + 1))
      have heffect := Interpreter.allows_of_outcome hout
      rw [interpreter_advance, firstStep, hvalue]
      refine ⟨hfault, hexecutes.1, s, ?_, heffect.eq_of_jump htransfer⟩
      change r.interpreter.program.statementAt? effect.machine.place = some s
      rw [heffect.frame.1]
      exact hexecutes.2.2.2 }

/-- A round keeps the run contained: an answer raises nothing but that its variable has no
name. -/
theorem contained_round (script : Script) (h : r.Contained program lines)
    (hover : r.isOver = false) :
    Contained program (r.round script).value
      (lines ++ Event.lines (r.round script).events) := by
  simp only [round, Logged.value_bind, Logged.events_bind, Event.lines_append, events_advance]
  split
  · next hawaits =>
    simp only [isOver, Bool.or_eq_false_iff, decide_eq_false_iff_not] at hover
    have hr : r.abort = none := by simpa using hover.2
    have hsound := (h.sound hr).1
    have hstep := Interpreter.sound_step hsound (script.requests (r.outputs + 1))
    simp only [awaits, Bool.and_eq_true, decide_eq_true_eq, Option.isNone_iff_eq_none] at hawaits
    rw [interpreter_advance] at hawaits
    have hnone : (r.firstStep script).value.fault = none := by
      refine Option.not_isSome_iff_eq_none.mp fun hsome => ?_
      have hhalted : (r.firstStep script).value.status = .halted := hstep.halted_of_fault hsome
      rw [hawaits.1] at hhalted
      cases hhalted
    refine contained_ask ?_ ?_ ?_ ?_ hawaits.2
    · rw [interpreter_advance]
      exact (Interpreter.program_step _ _).trans h.keeps
    · rw [interpreter_advance]
      exact hstep
    · rw [interpreter_advance]
      exact hawaits.1
    · rw [interpreter_advance]
      exact hnone
  · next hawaits =>
    refine (?_ : Contained program (r.advance script).value (lines ++ (_ ++ [])))
    rw [List.append_nil]
    exact contained_advance script h hover (Bool.eq_false_iff.mpr hawaits)

/-- Every round of a run keeps it contained. -/
theorem contained_drive (script : Script) (fuel : Nat) (log : Array Event)
    (h : r.Contained program (Event.lines log.toList)) :
    Contained program (r.drive script fuel log).1
      (Event.lines (r.drive script fuel log).2.toList) := by
  induction fuel generalizing r log with
  | zero => exact h
  | succ fuel ih =>
    unfold drive
    split
    · exact h
    · next hover =>
      apply ih
      rw [Array.toList_appendList, Event.lines_append]
      exact contained_round script h (Bool.eq_false_iff.mpr hover)

/-- A fault gets past a contained run exactly when it is left waiting at an
INPUT statement that cannot be completed. -/
theorem Contained.fault_iff (h : r.Contained program lines) {f : Fault} :
    r.abort = some (.fault f) ↔ r.interpreter.status = .waiting ∧ Unbindable r.interpreter f := by
  constructor
  · intro hf
    obtain ⟨_, hwaiting, _, hunbindable⟩ := h.escaped f hf
    exact ⟨hwaiting, hunbindable⟩
  · rintro ⟨hwaiting, s, name, prompt, hs, haction, _, rfl⟩
    match hr : r.abort with
    | none => exact absurd hwaiting (h.sound hr).2
    | some (.oversized digits) =>
      rw [(h.broken digits hr).2.1] at hwaiting
      cases hwaiting
    | some (.fault g) =>
      obtain ⟨_, _, _, s', name', prompt', hs', haction', _, rfl⟩ := h.escaped g hr
      rw [hs] at hs'
      cases hs'
      rw [haction] at haction'
      cases haction'
      rfl

theorem Contained.pending_eq_none (h : r.Contained program lines)
    (hwaiting : r.interpreter.status = .waiting) : r.interpreter.pending = none := by
  match hr : r.abort with
  | none => exact absurd hwaiting (h.sound hr).2
  | some (.fault f) => exact (h.escaped f hr).2.2.1
  | some (.oversized digits) =>
    rw [(h.broken digits hr).2.1] at hwaiting
    cases hwaiting

/-- Nothing breaks off a run that has halted. -/
theorem Contained.abort_eq_none (h : r.Contained program lines)
    (hhalted : r.interpreter.status = .halted) : r.abort = none := by
  match hr : r.abort with
  | none => rfl
  | some (.fault f) =>
    have hwaiting := (h.escaped f hr).2.1
    simp [hhalted] at hwaiting
  | some (.oversized digits) =>
    have hrunning := (h.broken digits hr).2.1
    simp [hhalted] at hrunning

theorem Contained.halted_of_fault (h : r.Contained program lines) {f : Fault}
    (hf : r.interpreter.fault = some f) : r.interpreter.status = .halted := by
  match hr : r.abort with
  | none => exact (h.sound hr).1.halted_of_fault (Option.isSome_of_mem hf)
  | some (.fault g) => simp [(h.escaped g hr).1] at hf
  | some (.oversized digits) => simp [(h.broken digits hr).1] at hf

end Round

/-- Every run is contained, from whatever interpreter it starts. -/
theorem contained_run (fuel : Nat) (script : Script) (program : Program) (i : Interpreter) :
    Contained program (i.run fuel script program).value
      (Event.lines (i.run fuel script program).events) := by
  have hstart : Event.lines (i.begin program script.answers).events = [] := by
    simp [Interpreter.begin, Interpreter.start]
  refine contained_drive script fuel _ ?_
  rw [hstart]
  exact contained_start (i.load program) script.answers

end Run

/-- Faults are contained but for the answers that cannot be bound. A step ends
with the fault of the statement it executes, reported by its only line, and
with no other one. A waiting interpreter has a pending request under a name
that was a name before it was put into upper case, and an answer leads to a
fault exactly when its upper case is none; the interpreter then waits for
nothing. A whole run ends behind the report of its fault, and a fault gets past
it exactly when it is left waiting at an INPUT statement of such a name. -/
theorem fault_contained_iff_bindable (i : Interpreter) :
    (i.Reachable →
      (∀ s f requests, i.Executes s → i.raised? s = some f →
        i.Reports s.number f (i.step requests)) ∧
      (∀ requests, (∀ s, i.Executes s → i.raised? s = none) →
        (i.step requests).value.fault = i.fault) ∧
      (i.status = .waiting → ∃ p name, i.pending = some p ∧ normalName name = .ok p.name ∧
        ∀ answer f,
          ((i.resume answer).value.1 = some (.fault f) ↔
            isName p.name.toList = false ∧ f = .invalidName p.name) ∧
          ((i.resume answer).value.1 = some (.fault f) →
            (i.resume answer).value.2 = { i with pending := none }))) ∧
    ∀ fuel script program,
      let run := i.run fuel script program
      let final := run.value.interpreter
      (∀ f, final.fault = some f → final.status = .halted ∧ ∃ s before,
        program.statementAt? final.machine.place = some s ∧
          Event.lines run.events = before ++ [Interpreter.errorLine s.number f]) ∧
      (∀ f, run.value.abort = some (.fault f) ↔
        final.status = .waiting ∧ Run.Unbindable final f) ∧
      (final.status = .waiting → final.pending = none) := by
  constructor
  · intro hi
    refine ⟨?_, ?_, ?_⟩
    · intro s f requests hexecutes hf
      exact Interpreter.reports_of_raised hexecutes hf requests
    · intro requests hquiet
      exact Interpreter.fault_step hquiet requests
    · intro hwaiting
      obtain ⟨p, hp⟩ := Option.isSome_iff_exists.mp (hi.sound.pending_iff.mpr hwaiting)
      obtain ⟨s, _, haction⟩ := hi.sound.pending_source p hp
      have hchecked := s.hasCheckedNames_action
      rw [haction] at hchecked
      obtain ⟨name, hname⟩ := hchecked
      refine ⟨p, name, hp, hname, ?_⟩
      intro answer f
      constructor
      · exact Interpreter.resume_eq_fault_iff hwaiting hp
      · exact Interpreter.resume_of_fault hwaiting hp
  · intro fuel script program run final
    have hrun := Run.contained_run fuel script program i
    refine ⟨?_, ?_, ?_⟩
    · intro f hf
      exact ⟨hrun.halted_of_fault hf, hrun.reported f hf⟩
    · intro f
      exact hrun.fault_iff
    · exact hrun.pending_eq_none

/-- An INPUT statement whose variable has no name in upper case: the upper case
of its second letter is a letter and a combining caron. -/
def inputOfNoName : Program :=
  ⟨[⟨10, "INPUT A\u01F0", Nat.zero_lt_succ 9⟩], List.pairwise_singleton _ _⟩

theorem fault_contained_at_inputOfNoName :
    let i := (((⟨0, .empty, {}, .idle, none, none, ⟨#[], 0⟩⟩ : Interpreter).operate
      (.start (some inputOfNoName))).value.2.operate (.step [])).value.2
    i.Reachable ∧ i.status = .waiting ∧ ∃ p, i.pending = some p ∧
      (i.resume "1").value.1 = some (.fault (.invalidName p.name)) := by
  intro i
  have hi : i.Reachable := .next _ (.next _ (.new 0 _) trivial) trivial
  have hwaiting : i.status = .waiting := by decide +kernel
  obtain ⟨p, name, hp, _, hanswer⟩ := ((fault_contained_iff_bindable i).1 hi).2.2 hwaiting
  have hpending : i.pending = some ⟨"AJ\u030C", ""⟩ := by decide +kernel
  have hname : isName p.name.toList = false := by
    rw [hpending] at hp
    cases hp
    decide +kernel
  exact ⟨hi, hwaiting, p, hp, (hanswer "1" _).1.mpr ⟨hname, rfl⟩⟩

/-- Not every run contains its faults. -/
theorem fault_not_contained_at_inputOfNoName :
    ¬ ∀ lines program fuel script (i : Interpreter), Program.load lines = .ok program →
      (∀ f, (i.run fuel script program).value.abort ≠ some (.fault f)) ∧
        ((i.run fuel script program).value.interpreter.status = .waiting →
          (i.run fuel script program).value.interpreter.pending.isSome = true) := by
  intro h
  have hload : Program.load ["10 INPUT A\u01F0"] = .ok inputOfNoName := rfl
  have hnofault := (h _ _ 2 { answers := ["1"] } { generator := ⟨#[], 0⟩ } hload).1
  exact hnofault (.invalidName "AJ\u030C") (by decide +kernel)

end LineBasic
