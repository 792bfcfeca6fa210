import LineBasic.Proofs.Steps

/-!
Breaks and stops are final. A host asks for them between operations or while a
line is output, and whatever it does next, short of a start, the run does not
come back. After a break at most the INPUT statement that waits is completed,
no statement is begun, and a run that still goes on ends with its next step.
After a stop the run has ended, and nothing more is output, bound or answered.

None of this is only about orderly histories. All that it needs of what was done
before is `Orderly`, which every operation keeps.
-/

namespace LineBasic

def Operation.IsStart : Operation → Prop
  | .start _ => True
  | _ => False

instance : DecidablePred Operation.IsStart
  | .start _ => isTrue trivial
  | .load _ | .step _ | .resume _ | .requestBreak | .stop => isFalse id

/-- A statement that outputs a line leaves the machine alone. -/
theorem Machine.Allows.machine_of_output {m : Machine} {c : Command} {effect : Effect}
    (h : m.Allows c effect) (hout : effect.output ≠ none) : effect.machine = m := by
  cases h with
  | print => rfl
  | _ => exact absurd rfl hout

namespace Interpreter

structure Orderly (i : Interpreter) : Prop where
  running_iff : i.machine.running = true ↔ i.isActive
  halted_of_fault : i.fault.isSome = true → i.status = .halted

section Orderly

variable {i k : Interpreter} {requests : List Request} {lines : List String}

theorem orderly_ended (i : Interpreter) : i.ended.Orderly where
  running_iff := by simp [ended, isActive]
  halted_of_fault _ := rfl

theorem orderly_asked (h : i.Orderly) (requests : List Request) : (i.asked requests).Orderly := by
  unfold asked
  simp only
  split
  · exact orderly_ended _
  · next hkeeps =>
    -- A stop that ends nothing finds a run that is not under way.
    have hrunning : (i.machine.running && !requests.contains .stop) = i.machine.running := by
      cases hstop : requests.contains .stop with
      | false => simp
      | true =>
        have hoff : i.machine.running ≠ true := fun hon =>
          hkeeps ⟨hstop, h.running_iff.mp hon⟩
        simp [Bool.eq_false_iff.mpr hoff]
    exact ⟨by rw [hrunning]; exact h.running_iff, h.halted_of_fault⟩

theorem orderly_moveTo (h : i.Orderly) (index : Nat) : (i.moveTo index).value.Orderly := by
  rw [value_moveTo]
  split
  · exact orderly_ended _
  · exact ⟨h.running_iff, h.halted_of_fault⟩

theorem StepsTo.orderly (h : i.StepsTo requests k lines) (hi : i.Orderly) : k.Orderly := by
  have hacted {s : Statement} {effect : Effect} (heffect : i.machine.Allows s.action effect) :
      (i.acted s effect).Orderly :=
    ⟨by rw [machine_acted, heffect.frame.2.1]; exact hi.running_iff, hi.halted_of_fault⟩
  cases h with
  | rest => exact hi
  | stopped | broken | behind | finish => exact orderly_ended _
  | fault => exact ⟨by simp [isActive], fun _ => rfl⟩
  | print _ heffect _ => exact orderly_moveTo (orderly_asked (hacted heffect) requests) _
  | move _ heffect _ => exact orderly_moveTo (hacted heffect) _
  | oversized _ heffect => exact hacted heffect
  | @await s effect name prompt hs heffect _ =>
    refine ⟨?_, fun hfault => ?_⟩
    · simp [isActive, heffect.frame.2.1, hs.2.1]
    · have hhalted := hi.halted_of_fault hfault
      simp [hs.1] at hhalted

theorem ResumesTo.orderly {answer : String} {error : Option ResumeError}
    (h : i.ResumesTo answer error k) (hi : i.Orderly) : k.Orderly := by
  cases h with
  | refused => exact hi
  | unbindable => exact ⟨hi.running_iff, hi.halted_of_fault⟩
  | bound hstatus =>
    have hon : i.machine.running = true := hi.running_iff.mpr (.inr hstatus)
    refine orderly_moveTo ⟨by simp [answered, isActive, hon], fun hfault => ?_⟩ _
    simp [hi.halted_of_fault hfault] at hstatus

theorem orderly_start (i : Interpreter) : i.start.value.Orderly :=
  ⟨by simp [start, isActive], by simp [start]⟩

theorem orderly_operate (hi : i.Orderly) (o : Operation) : (i.operate o).value.2.Orderly := by
  cases o with
  | load program => exact ⟨hi.running_iff, hi.halted_of_fault⟩
  | start program => exact orderly_start _
  | step requests => exact (stepsTo_step requests i).orderly hi
  | resume answer => exact (resumesTo_resume answer i).orderly hi
  | requestBreak =>
    change i.requestBreak.Orderly
    rw [← asked_break]
    exact orderly_asked hi [.break]
  | stop =>
    change i.stop.value.Orderly
    rw [← asked_stop]
    exact orderly_asked hi [.stop]

theorem orderly_after (hi : i.Orderly) (os : List Operation) : (i.after os).Orderly := by
  induction os generalizing i with
  | nil => exact hi
  | cons o os ih => exact ih (orderly_operate hi o)

theorem orderly_new (detail : Nat) (generator : Generator) :
    Orderly { detail := detail, generator := generator } :=
  ⟨by simp [isActive], by simp⟩

end Orderly

/-- Whether the host asks for something with an operation: by itself, or while
the operation outputs a line. -/
def AsksFor (i : Interpreter) (r : Request) : Operation → Prop
  | .requestBreak => r = .break
  | .stop => r = .stop
  | .step requests => r ∈ requests ∧ Event.lines (i.step requests).events ≠ []
  | _ => False

def completes (i : Interpreter) : Operation → Bool
  | .resume answer => (i.resume answer).value.1.isNone
  | _ => false

/-- One while an INPUT statement waits for its answer, and zero otherwise. -/
def waits (i : Interpreter) : Nat := if i.status = .waiting then 1 else 0

def linesAlong (i : Interpreter) : List Operation → List String
  | [] => []
  | o :: os => Event.lines (i.operate o).events ++ linesAlong (i.operate o).value.2 os

structure Breaks (i : Interpreter) (step : Logged Interpreter) : Prop where
  lines : Event.lines step.events = ["[BREAK]"]
  halted : step.value.status = .halted
  fault : step.value.fault = none
  environment : step.value.machine.environment = i.machine.environment
  returns : step.value.machine.returns = i.machine.returns
  loops : step.value.machine.loops = i.machine.loops
  place : step.value.machine.place = i.machine.place

structure WindsUp (i : Interpreter) (os : List Operation) : Prop where
  executes_none : (i.after os).executed? = none
  completes_le : i.countAlong completes os ≤ i.waits
  completes_none : (i.after os).status = .waiting → i.countAlong completes os = 0
  breaks : (i.after os).status = .running →
    ∀ requests, (i.after os).Breaks ((i.after os).step requests)

structure StaysStopped (before i : Interpreter) (os : List Operation) : Prop where
  halted : (i.after os).status = .halted
  executes_none : (i.after os).executed? = none
  lines : i.linesAlong os = []
  completes_none : i.countAlong completes os = 0
  pending : (i.after os).pending = none
  environment : (i.after os).machine.environment = before.machine.environment
  step : ∀ requests, (i.after os).step requests = pure (i.after os)
  resume : ∀ answer, (i.after os).resume answer = pure (some .notWaiting, i.after os)

section Break

variable {i k : Interpreter} {requests : List Request} {lines : List String} {o : Operation}
  {os : List Operation}

@[simp] theorem breakRequested_asked (requests : List Request) (i : Interpreter) :
    (i.asked requests).machine.breakRequested =
      (i.machine.breakRequested || requests.contains .break) := by
  simp only [asked]
  split <;> rfl

theorem breakRequested_moveTo (index : Nat) (i : Interpreter) :
    (i.moveTo index).value.machine.breakRequested = i.machine.breakRequested := by
  rw [value_moveTo]
  split <;> rfl

/-- A break that is asked for while a step outputs its line is remembered. -/
theorem StepsTo.breakRequested_of_asked (h : i.StepsTo requests k lines)
    (hbreak : .break ∈ requests) (hlines : lines ≠ []) : k.machine.breakRequested = true := by
  have hasked (j : Interpreter) : (j.asked requests).machine.breakRequested = true := by
    simp [hbreak]
  cases h with
  | rest | stopped | behind | move | finish | await | oversized => exact absurd rfl hlines
  | broken => exact hasked i
  | fault => simp [hbreak]
  | print => exact (breakRequested_moveTo _ _).trans (hasked _)

theorem breakRequested_of_asksFor (ho : i.AsksFor .break o) :
    (i.operate o).value.2.machine.breakRequested = true := by
  cases o with
  | load program | start program | resume answer => exact absurd ho id
  | requestBreak => rfl
  | step requests => exact (stepsTo_step requests i).breakRequested_of_asked ho.1 ho.2
  | stop => cases ho

/-- Once a break was asked for, a step does nothing or ends the run. -/
theorem StepsTo.of_breakRequested (h : i.StepsTo requests k lines)
    (hbreak : i.machine.breakRequested = true) :
    k = i ∨ k.status = .halted ∧ k.machine.breakRequested = true := by
  cases h with
  | rest => exact .inl rfl
  | stopped => exact .inr ⟨rfl, hbreak⟩
  | broken => exact .inr ⟨rfl, by simp [ended, hbreak]⟩
  | behind _ _ hoff => simp [hbreak] at hoff
  | fault hs | print hs | move hs | finish hs | await hs | oversized hs =>
    obtain ⟨_, _, hoff, _⟩ := hs
    simp [hbreak] at hoff

theorem ResumesTo.completes_add_waits_le {answer : String} {error : Option ResumeError}
    (h : i.ResumesTo answer error k) : error.isNone.toNat + k.waits ≤ i.waits := by
  cases h with
  | refused | unbindable => simp [waits]
  | bound hstatus =>
    rw [value_moveTo]
    split <;> simp [waits, ended, placed, answered, hstatus]

theorem ResumesTo.breakRequested {answer : String} {error : Option ResumeError}
    (h : i.ResumesTo answer error k) (hbreak : i.machine.breakRequested = true) :
    k.machine.breakRequested = true := by
  cases h with
  | refused | unbindable => exact hbreak
  | bound => exact (breakRequested_moveTo _ _).trans hbreak

theorem waits_stop_le (i : Interpreter) : i.stop.value.waits ≤ i.waits := by
  rw [value_stop]
  split
  · exact Nat.zero_le _
  · exact Nat.le_refl _

/-- Once a break was asked for, only an answer to the INPUT statement that waits
gets through, and the run does not wait again. -/
theorem breakRequested_operate (hbreak : i.machine.breakRequested = true) (ho : ¬ o.IsStart) :
    (i.operate o).value.2.machine.breakRequested = true ∧
      (i.completes o).toNat + (i.operate o).value.2.waits ≤ i.waits := by
  cases o with
  | load program => exact ⟨hbreak, Nat.le_of_eq (Nat.zero_add i.waits)⟩
  | start program => exact absurd trivial ho
  | step requests =>
    change (i.step requests).value.machine.breakRequested = true ∧
      0 + (i.step requests).value.waits ≤ i.waits
    rcases (stepsTo_step requests i).of_breakRequested hbreak with hsame | ⟨hhalted, hkept⟩
    · rw [hsame]
      exact ⟨hbreak, by omega⟩
    · exact ⟨hkept, by simp [waits, hhalted]⟩
  | resume answer =>
    have hresumes := resumesTo_resume answer i
    exact ⟨hresumes.breakRequested hbreak, hresumes.completes_add_waits_le⟩
  | requestBreak => exact ⟨rfl, Nat.le_of_eq (Nat.zero_add i.waits)⟩
  | stop =>
    change i.stop.value.machine.breakRequested = true ∧ 0 + i.stop.value.waits ≤ i.waits
    have hwaits := i.waits_stop_le
    refine ⟨?_, by omega⟩
    rw [← asked_stop, breakRequested_asked, hbreak, Bool.true_or]

theorem breakRequested_after (hbreak : i.machine.breakRequested = true)
    (hos : ∀ o ∈ os, ¬ o.IsStart) :
    (i.after os).machine.breakRequested = true ∧
      i.countAlong completes os + (i.after os).waits ≤ i.waits := by
  induction os generalizing i with
  | nil => exact ⟨hbreak, by simp [countAlong, after]⟩
  | cons o os ih =>
    obtain ⟨ho, hos⟩ := List.forall_mem_cons.mp hos
    obtain ⟨hkept, hfirst⟩ := breakRequested_operate hbreak ho
    obtain ⟨hstays, hrest⟩ := ih hkept hos
    refine ⟨hstays, ?_⟩
    rw [countAlong, after]
    omega

/-- A break ends a run that goes on, and nothing else. -/
theorem breaks_of_breakRequested (hi : i.Orderly) (hbreak : i.machine.breakRequested = true)
    (hrunning : i.status = .running) (requests : List Request) :
    i.Breaks (i.step requests) := by
  have hon : i.machine.running = true := hi.running_iff.mpr (.inl hrunning)
  have hnone : i.fault = none := by
    refine Option.not_isSome_iff_eq_none.mp fun hfault => ?_
    simp [hi.halted_of_fault hfault] at hrunning
  have hstep : i.step requests = i.output requests "[BREAK]" >>= halt .broken := by
    simp [step, hrunning, hon, hbreak]
  have hvalue : (i.step requests).value = (i.asked requests).ended := by simp [hstep]
  exact {
    lines := by simp [hstep]
    halted := by rw [hvalue]; rfl
    fault := by simpa [hvalue, ended] using hnone
    environment := by simp [hvalue, ended]
    returns := by simp [hvalue, ended]
    loops := by simp [hvalue, ended]
    place := by simp [hvalue, ended] }

theorem windsUp_of_breakRequested (hi : i.Orderly) (hbreak : i.machine.breakRequested = true)
    (hos : ∀ o ∈ os, ¬ o.IsStart) : i.WindsUp os := by
  obtain ⟨hkept, hcount⟩ := breakRequested_after hbreak hos
  exact {
    executes_none := by simp [executed?, hkept]
    completes_le := Nat.le_trans (Nat.le_add_right _ _) hcount
    completes_none := fun hwaiting => by
      have hone : (i.after os).waits = 1 := if_pos hwaiting
      have hle : i.waits ≤ 1 := by
        unfold waits
        split <;> omega
      omega
    breaks := fun hrunning requests =>
      breaks_of_breakRequested (orderly_after hi os) hkept hrunning requests }

end Break

section Stop

variable {i k : Interpreter} {requests : List Request} {lines : List String} {o : Operation}
  {os : List Operation}

/-- A step outputs at most one line. A stop that is asked for meanwhile ends the
run by the end of the step, with no variable changed. -/
theorem StepsTo.of_stop_asked (h : i.StepsTo requests k lines) (hstop : .stop ∈ requests)
    (hlines : lines ≠ []) : lines.length = 1 ∧ k.status = .halted ∧ k.pending = none ∧
      k.machine.environment = i.machine.environment := by
  cases h with
  | rest | stopped | behind | move | finish | await | oversized => exact absurd rfl hlines
  | broken => exact ⟨rfl, rfl, rfl, by simp [ended]⟩
  | fault => exact ⟨rfl, rfl, rfl, rfl⟩
  | @print s effect line hs heffect hline =>
    have hmachine := heffect.machine_of_output (by simp [hline])
    have hactive : (i.acted s effect).isActive := .inl hs.1
    have hended : ((i.acted s effect).asked requests).status = .halted ∧
        ((i.acted s effect).asked requests).pending = none := by
      have hcontains : requests.contains .stop = true := by simpa using hstop
      simp only [asked, hcontains]
      rw [if_pos ⟨trivial, hactive⟩]
      exact ⟨rfl, rfl⟩
    rw [value_moveTo]
    split
    · exact ⟨rfl, rfl, rfl, by simp [ended, placed, hmachine]⟩
    · exact ⟨rfl, hended.1, hended.2, by simp [placed, hmachine]⟩

/-- A stop in a run ends it by the end of the operation. -/
theorem halted_of_asksFor_stop (ho : i.AsksFor .stop o) (hactive : i.isActive) :
    (Event.lines (i.operate o).events).length ≤ 1 ∧ (i.operate o).value.2.status = .halted ∧
      (i.operate o).value.2.pending = none ∧
      (i.operate o).value.2.machine.environment = i.machine.environment := by
  cases o with
  | load program | start program | resume answer => exact absurd ho id
  | requestBreak => cases ho
  | step requests =>
    obtain ⟨hstop, hlines⟩ := ho
    obtain ⟨hlength, hhalted, hpending, henvironment⟩ :=
      (stepsTo_step requests i).of_stop_asked hstop hlines
    have hevents : (i.operate (.step requests)).events = (i.step requests).events := by
      simp [operate]
    exact ⟨by rw [hevents, hlength], hhalted, hpending, henvironment⟩
  | stop =>
    have hvalue : (i.operate .stop).value.2 = i.ended := by
      change i.stop.value = i.ended
      rw [value_stop, if_pos hactive]
    have hevents : (i.operate .stop).events = i.stop.events := by simp [operate]
    rw [hvalue, hevents, lines_stop]
    exact ⟨Nat.zero_le _, rfl, rfl, rfl⟩

theorem step_of_halted (h : i.status = .halted) (requests : List Request) :
    i.step requests = pure i := by
  simp [step, h]

theorem resume_of_halted (h : i.status = .halted) (answer : String) :
    i.resume answer = pure (some .notWaiting, i) := by
  simp [resume, h]

/-- Short of a start, no operation does anything to a run that has ended. -/
theorem operate_of_halted (h : i.status = .halted) (ho : ¬ o.IsStart) :
    (i.operate o).value.2.status = .halted ∧ Event.lines (i.operate o).events = [] ∧
      i.completes o = false ∧ (i.operate o).value.2.pending = i.pending ∧
      (i.operate o).value.2.machine.environment = i.machine.environment := by
  cases o with
  | load program => exact ⟨h, rfl, rfl, rfl, rfl⟩
  | start program => exact absurd trivial ho
  | step requests =>
    rw [operate, step_of_halted h]
    exact ⟨h, rfl, rfl, rfl, rfl⟩
  | resume answer =>
    rw [completes, operate, resume_of_halted h]
    exact ⟨h, rfl, rfl, rfl, rfl⟩
  | requestBreak => exact ⟨h, rfl, rfl, rfl, rfl⟩
  | stop =>
    have hinactive : ¬ i.isActive := by simp [isActive, h]
    have hevents : (i.operate .stop).events = i.stop.events := by simp [operate]
    have hvalue : (i.operate .stop).value.2 =
        { i with machine := { i.machine with running := false } } := by
      change i.stop.value = _
      rw [value_stop, if_neg hinactive]
    rw [hvalue, hevents, lines_stop]
    exact ⟨h, rfl, rfl, rfl, rfl⟩

theorem staysStopped_of_halted {before : Interpreter} (h : i.status = .halted)
    (hpending : i.pending = none)
    (henvironment : i.machine.environment = before.machine.environment)
    (hos : ∀ o ∈ os, ¬ o.IsStart) : StaysStopped before i os := by
  induction os generalizing i with
  | nil =>
    exact {
      halted := h
      executes_none := by simp [executed?, after, h]
      lines := rfl
      completes_none := rfl
      pending := hpending
      environment := henvironment
      step := step_of_halted h
      resume := resume_of_halted h }
  | cons o os ih =>
    obtain ⟨ho, hos⟩ := List.forall_mem_cons.mp hos
    obtain ⟨hhalted, hlines, hcompletes, hsame, hkept⟩ := operate_of_halted h ho
    have hrest := ih hhalted (hsame.trans hpending) (hkept.trans henvironment) hos
    exact {
      halted := hrest.halted
      executes_none := hrest.executes_none
      lines := by rw [linesAlong, hlines, hrest.lines]; rfl
      completes_none := by rw [countAlong, hcompletes, hrest.completes_none]; rfl
      pending := hrest.pending
      environment := hrest.environment
      step := hrest.step
      resume := hrest.resume }

end Stop

/-- At whatever moment of whatever history a host asks for a break or a stop, it
is final until the next start. After a break, operations only wind the run up.
A stop in a run outputs no line behind the one that it is asked for in, ends the
run by the end of the operation, and leaves it so, with the variables as they
were before the operation. -/
theorem break_and_stop_are_final (detail : Nat) (generator : Generator)
    (history : List Operation) (o : Operation) :
    let i := ({ detail := detail, generator := generator } : Interpreter).after history
    let k := (i.operate o).value.2
    (i.AsksFor .break o → ∀ os : List Operation, (∀ o ∈ os, ¬ o.IsStart) → k.WindsUp os) ∧
    (i.AsksFor .stop o → i.isActive →
      (Event.lines (i.operate o).events).length ≤ 1 ∧ k.status = .halted ∧
        ∀ os : List Operation, (∀ o ∈ os, ¬ o.IsStart) → StaysStopped i k os) := by
  intro i k
  have hi : i.Orderly := orderly_after (orderly_new detail generator) history
  refine ⟨fun ho os hos => ?_, fun ho hactive => ?_⟩
  · exact windsUp_of_breakRequested (orderly_operate hi o) (breakRequested_of_asksFor ho) hos
  · obtain ⟨hlength, hhalted, hpending, henvironment⟩ := halted_of_asksFor_stop ho hactive
    exact ⟨hlength, hhalted, fun os hos =>
      staysStopped_of_halted hhalted hpending henvironment hos⟩

def askingBetween : Program :=
  (Program.load ["10 PRINT 1", "20 INPUT A", "30 PRINT A"]).toOption.getD .empty

/-- A stop while the first line is output, and a break while the answer is waited
for: the answer is still bound, and the second line is not output. -/
theorem break_and_stop_are_final_at_askingBetween :
    let start : Operation := .start (some askingBetween)
    let i := ({ generator := ⟨#[], 0⟩ } : Interpreter).after [start]
    let j := ({ generator := ⟨#[], 0⟩ } : Interpreter).after [start, .step [], .step []]
    Event.lines (i.step [.stop]).events = ["1"] ∧
    StaysStopped i (i.step [.stop]).value [.step [], .requestBreak, .resume "7"] ∧
    j.status = .waiting ∧
    (j.requestBreak.after [.resume "7"]).machine.environment.get? "A" = some (.number 7) ∧
    (j.requestBreak.after [.resume "7"]).Breaks ((j.requestBreak.after [.resume "7"]).step []) := by
  intro start i j
  have hlines : Event.lines (i.step [.stop]).events = ["1"] := by decide +kernel
  have hstops : i.AsksFor .stop (.step [.stop]) := ⟨List.mem_singleton_self _, by simp [hlines]⟩
  have hactive : i.isActive := by decide +kernel
  have hstopped := (break_and_stop_are_final 0 ⟨#[], 0⟩ [start] (.step [.stop])).2 hstops hactive
  have hwindsUp := (break_and_stop_are_final 0 ⟨#[], 0⟩ [start, .step [], .step []]
    .requestBreak).1 rfl [.resume "7"] (by decide)
  have hrunning : (j.requestBreak.after [.resume "7"]).status = .running := by decide +kernel
  exact ⟨hlines, hstopped.2.2 _ (by decide), by decide +kernel, by decide +kernel,
    hwindsUp.breaks hrunning []⟩

end Interpreter

end LineBasic
