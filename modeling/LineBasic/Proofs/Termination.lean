import LineBasic.Proofs.Steps
import Mathlib.Algebra.GroupWithZero.Nat

/-!
Programs that only lead forward end. Without NEXT, and if every jump and call
names a later line, only a return goes back. A call runs the rest of the program
and then again the rest behind itself, so what is left to execute at most
doubles with each statement further up: `Program.span` is that bound, summed up
in `Program.weight` over the place and every index to return to. Each statement
that is executed lowers the weight, so a run executes less than `2 ^ n` of them.
-/

namespace LineBasic

/-- Whether a statement only leads forward: it comes down to no NEXT, and a jump
or a call names a line behind its own. A line number that the host does not read
leads nowhere. -/
def Statement.LeadsForward (s : Statement) : Prop :=
  match s.action with
  | .goto (.line target) | .gosub (.line target) => s.number < target
  | .next _ => False
  | _ => True

instance (s : Statement) : Decidable s.LeadsForward := by
  unfold Statement.LeadsForward
  split <;> infer_instance

/-- Whether the host reads the line number of a jump or a call. -/
def Statement.IsRead (s : Statement) : Prop :=
  match s.action with
  | .goto (.oversized _) | .gosub (.oversized _) => False
  | _ => True

instance (s : Statement) : Decidable s.IsRead := by
  unfold Statement.IsRead
  split <;> infer_instance

/-- Whether the variable of an INPUT statement is a name also in upper case, so
that an answer can be bound to it. -/
def Statement.IsAnswerable (s : Statement) : Prop :=
  match s.action with
  | .input name _ => isName name.toList = true
  | _ => True

instance (s : Statement) : Decidable s.IsAnswerable := by
  unfold Statement.IsAnswerable
  split <;> infer_instance

namespace Program

/-- Whether every statement of a program only leads forward. -/
def IsForward (p : Program) : Prop := ∀ s ∈ p.statements, s.LeadsForward

instance (p : Program) : Decidable p.IsForward :=
  inferInstanceAs (Decidable (∀ s ∈ p.statements, s.LeadsForward))

/-- The most statements that can be executed from an index on before the run
ends or returns to where it was called from, if they only lead forward. -/
def span (p : Program) (index : Nat) : Nat := 2 ^ (p.size - index) - 1

/-- The most statements that can be executed from an index on, with these
indices to return to. -/
def weight (p : Program) (index : Nat) (returns : List Nat) : Nat :=
  p.span index + (returns.map p.span).sum

section Weight

variable {p : Program} {index k : Nat} {returns : List Nat}

/-- A statement can make the rest of the program run twice, but no more. -/
theorem span_eq_of_lt (h : index < p.size) : p.span index = 2 * p.span (index + 1) + 1 := by
  have hsize : p.size - index = (p.size - (index + 1)) + 1 := by omega
  have hpos : 0 < 2 ^ (p.size - (index + 1)) := Nat.two_pow_pos _
  unfold span
  rw [hsize, Nat.pow_succ]
  omega

theorem span_le_span (h : index ≤ k) : p.span k ≤ p.span index := by
  have hpow : 2 ^ (p.size - k) ≤ 2 ^ (p.size - index) :=
    Nat.pow_le_pow_right (by decide) (by omega)
  unfold span
  omega

theorem weight_le_weight (h : index ≤ k) : p.weight k returns ≤ p.weight index returns :=
  Nat.add_le_add_right (span_le_span h) _

theorem weight_lt_weight (hindex : index < p.size) (h : index < k) :
    p.weight k returns < p.weight index returns := by
  have hspan := span_eq_of_lt hindex
  have hle : p.span k ≤ p.span (index + 1) := span_le_span h
  unfold weight
  omega

/-- A call is paid for by the two times that the rest of the program can run. -/
theorem weight_call_lt (hindex : index < p.size) (h : index < k) :
    p.weight k ((index + 1) :: returns) < p.weight index returns := by
  have hspan := span_eq_of_lt hindex
  have hle : p.span k ≤ p.span (index + 1) := span_le_span h
  simp only [weight, List.map_cons, List.sum_cons]
  omega

theorem weight_return_lt (hindex : index < p.size) :
    p.weight k returns < p.weight index (k :: returns) := by
  have hspan := span_eq_of_lt hindex
  simp only [weight, List.map_cons, List.sum_cons]
  omega

/-- Statements with greater numbers stand behind. -/
theorem lt_of_number_lt {s t : Statement} (hs : p.statementAt? index = some s)
    (ht : p.statementAt? k = some t) (h : s.number < t.number) : index < k := by
  obtain ⟨hindex, rfl⟩ := List.getElem?_eq_some_iff.mp hs
  obtain ⟨hk, rfl⟩ := List.getElem?_eq_some_iff.mp ht
  refine Nat.lt_of_not_le fun hle => ?_
  rcases Nat.lt_or_eq_of_le hle with hlt | rfl
  · have hascending := List.pairwise_iff_getElem.mp p.ascending k index hk hindex hlt
    omega
  · omega

end Weight

/-- Wherever a statement that only leads forward goes on, less is left to
execute, a call and a return included. -/
theorem weight_landing_lt {p : Program} {m : Machine} {s : Statement} {effect : Effect}
    {index : Nat} (h : m.Allows s.action effect) (hs : p.statementAt? m.place = some s)
    (hforward : s.LeadsForward) (hindex : p.landing? m.place effect.transfer = some index) :
    p.weight index effect.machine.returns < p.weight m.place m.returns := by
  have hplace : m.place < p.size := (List.getElem?_eq_some_iff.mp hs).1
  have hbehind (target : Nat) (hnumber : s.number < target)
      (hfound : p.indexOf? target = some index) : m.place < index := by
    obtain ⟨t, ht, rfl⟩ := indexOf?_eq_some_iff.mp hfound
    exact lt_of_number_lt hs ht hnumber
  unfold Statement.LeadsForward at hforward
  generalize s.action = c at h hforward
  cases h with
  | skip | print | assign | enter =>
    cases hindex
    exact weight_lt_weight hplace (Nat.lt_succ_self _)
  | jump target =>
    cases target with
    | line number => exact weight_lt_weight hplace (hbehind number hforward hindex)
    | oversized digits => cases hindex
  | call target =>
    cases target with
    | line number => exact weight_call_lt hplace (hbehind number hforward hindex)
    | oversized digits => cases hindex
  | back hreturns =>
    cases hindex
    rw [hreturns]
    exact weight_return_lt hplace
  | again | leave => exact absurd hforward id
  | await | finish => cases hindex

end Program

namespace Interpreter

/-- The most statements that a run can still execute. An INPUT statement that
waits has been executed already. -/
def stepsLeft (i : Interpreter) : Nat :=
  match i.status with
  | .running => i.program.weight i.machine.place i.machine.returns
  | .waiting => i.program.weight (i.machine.place + 1) i.machine.returns
  | _ => 0

section StepsLeft

variable {i k : Interpreter} {requests : List Request} {lines : List String}

theorem stepsLeft_le (i : Interpreter) :
    i.stepsLeft ≤ i.program.weight i.machine.place i.machine.returns := by
  unfold stepsLeft
  split
  · exact Nat.le_refl _
  · exact Program.weight_le_weight (Nat.le_succ _)
  · exact Nat.zero_le _

theorem stepsLeft_moveTo (index : Nat) (i : Interpreter) :
    (i.moveTo index).value.stepsLeft ≤ i.program.weight index i.machine.returns := by
  rw [value_moveTo]
  split
  · exact Nat.zero_le _
  · exact stepsLeft_le (i.placed index)

/-- Where a statement is executed, less is left behind it. -/
theorem weight_behind_lt {s : Statement} (hs : i.Executes s) :
    i.program.weight (i.machine.place + 1) i.machine.returns < i.stepsLeft := by
  have hplace : i.machine.place < i.program.size := (List.getElem?_eq_some_iff.mp hs.2.2.2).1
  have hleft : i.stepsLeft = i.program.weight i.machine.place i.machine.returns := by
    simp only [stepsLeft, hs.1]
  rw [hleft]
  exact Program.weight_lt_weight hplace (Nat.lt_succ_self _)

/-- A step that executes a statement, and does not break off at it, leaves less to
execute. -/
theorem StepsTo.stepsLeft_lt {s : Statement} (h : i.StepsTo requests k lines)
    (hs : i.Executes s) (hforward : i.program.IsForward) (hgoes : i.breaksOff? s = none) :
    k.stepsLeft < i.stepsLeft := by
  have hleft : i.stepsLeft = i.program.weight i.machine.place i.machine.returns := by
    simp only [stepsLeft, hs.1]
  have hnext := weight_behind_lt hs
  have hlands {t : Statement} {effect : Effect} {index : Nat} (ht : i.Executes t)
      (heffect : i.machine.Allows t.action effect)
      (hindex : i.program.landing? i.machine.place effect.transfer = some index) :
      i.program.weight index effect.machine.returns < i.stepsLeft := by
    rw [hleft]
    exact Program.weight_landing_lt heffect ht.2.2.2
      (hforward t (List.mem_of_getElem? ht.2.2.2)) hindex
  cases h with
  | rest hstatus => exact absurd hs.1 hstatus
  | stopped _ hoff => simp [hs.2.1] at hoff
  | broken _ _ hbreak => simp [hs.2.2.1] at hbreak
  | behind _ _ _ hnone => simp [hs.2.2.2] at hnone
  | fault | finish => exact Nat.zero_lt_of_lt hnext
  | @print t effect line ht heffect hline =>
    have hadvance := heffect.transfer_of_output (by simp [hline])
    have hindex : i.program.landing? i.machine.place effect.transfer =
        some (i.machine.place + 1) := by
      rw [hadvance]
      rfl
    refine Nat.lt_of_le_of_lt (stepsLeft_moveTo _ _) ?_
    simpa using hlands ht heffect hindex
  | @move t effect index ht heffect hindex =>
    refine Nat.lt_of_le_of_lt (stepsLeft_moveTo _ _) ?_
    simpa using hlands ht heffect hindex
  | @await t effect name prompt ht heffect hawait =>
    have hmachine := heffect.machine_of_await hawait
    simpa [stepsLeft, hmachine] using hnext
  | @oversized t effect digits ht heffect hjump hbreaks =>
    cases hs.2.2.2.symm.trans ht.2.2.2
    cases hgoes.symm.trans hbreaks

/-- A step that executes no statement leaves no more to execute. -/
theorem StepsTo.stepsLeft_le_of_idle (h : i.StepsTo requests k lines)
    (hidle : ∀ s, ¬ i.Executes s) : k.stepsLeft ≤ i.stepsLeft := by
  cases h with
  | rest => exact Nat.le_refl _
  | stopped | broken | behind => exact Nat.zero_le _
  | fault hs | print hs | move hs | finish hs | await hs | oversized hs =>
    exact absurd hs (hidle _)

/-- Each statement that is executed is one of those that were left. -/
theorem stepsLeft_step (hforward : i.program.IsForward) (requests : List Request)
    (hgoes : Event.oversized? (i.step requests).events = none) :
    i.executed?.isSome.toNat + (i.step requests).value.stepsLeft ≤ i.stepsLeft := by
  have hsteps := stepsTo_step requests i
  cases hexecuted : i.executed? with
  | none =>
    simpa using hsteps.stepsLeft_le_of_idle (executed?_eq_none_iff.mp hexecuted)
  | some s =>
    have hexecutes := executed?_eq_some_iff.mp hexecuted
    have hless := hsteps.stepsLeft_lt hexecutes hforward
      ((oversized?_step hexecutes requests).symm.trans hgoes)
    simp only [Option.isSome_some, Bool.toNat_true]
    omega

/-- An answer leaves what was left behind the INPUT statement. -/
theorem ResumesTo.stepsLeft_le {answer : String} {error : Option ResumeError}
    (h : i.ResumesTo answer error k) : k.stepsLeft ≤ i.stepsLeft := by
  cases h with
  | refused => exact Nat.le_refl _
  | unbindable hstatus => simp [stepsLeft, hstatus]
  | bound hstatus =>
    refine Nat.le_trans (stepsLeft_moveTo _ _) ?_
    simp [stepsLeft, hstatus, answered]

theorem stepsLeft_stop (i : Interpreter) : i.stop.value.stepsLeft ≤ i.stepsLeft := by
  rw [value_stop]
  split
  · exact Nat.zero_le _
  · exact Nat.le_refl _

theorem stepsLeft_start (i : Interpreter) : i.start.value.stepsLeft < 2 ^ i.program.size := by
  have hpos : 0 < 2 ^ i.program.size := Nat.two_pow_pos _
  simp only [start, stepsLeft, Program.weight, Program.span, Logged.value_bind, Logged.value_pure,
    List.map_nil, List.sum_nil, Nat.sub_zero]
  omega

end StepsLeft

end Interpreter

namespace Run

def stepsLeft (r : Run) : Nat := if r.isOver then 0 else r.interpreter.stepsLeft

/-- How many statements are executed in the next `fuel` rounds of a run. -/
def executions (script : Script) : Nat → Run → Nat
  | 0, _ => 0
  | fuel + 1, r =>
    if r.isOver then 0
    else r.interpreter.executed?.isSome.toNat + executions script fuel (r.round script).value

section Rounds

variable {program : Program} {r : Run} {lines : List String} (script : Script)

theorem program_round (r : Run) :
    (r.round script).value.interpreter.program = r.interpreter.program := by
  obtain ⟨os, hos, hround⟩ := r.exists_operations_round script
  rw [hround, Interpreter.program_after hos]

theorem status_round_ne_idle (h : r.interpreter.status ≠ .idle) :
    (r.round script).value.interpreter.status ≠ .idle := by
  obtain ⟨os, hos, hround⟩ := r.exists_operations_round script
  rw [hround]
  exact Interpreter.status_after_ne_idle h hos

theorem drive_of_isOver (h : r.isOver = true) (fuel : Nat) (log : Array Event) :
    r.drive script fuel log = (r, log) := by
  cases fuel with
  | zero => rfl
  | succ fuel => simp [drive, h]

/-- A run is what its last round leaves. -/
theorem drive_of_isOver_round (hgoes : r.isOver = false)
    (hover : (r.round script).value.isOver = true) (fuel : Nat) (log : Array Event) :
    (r.drive script (fuel + 1) log).1 = (r.round script).value := by
  rw [drive, if_neg (Bool.eq_false_iff.mp hgoes), drive_of_isOver script hover]

/-- A run that is not over is running between its rounds. -/
theorem running_of_contained (h : r.Contained program lines) (hidle : r.interpreter.status ≠ .idle)
    (hover : r.isOver = false) : r.interpreter.status = .running := by
  simp only [isOver, Bool.or_eq_false_iff, decide_eq_false_iff_not] at hover
  have hwaiting := (h.sound (by simpa using hover.2)).2
  cases hstatus : r.interpreter.status with
  | running => rfl
  | idle => exact absurd hstatus hidle
  | waiting => exact absurd hstatus hwaiting
  | halted => exact absurd hstatus hover.1

/-- If a step does not leave the interpreter waiting, the round is over with it. -/
theorem round_of_not_awaits (h : (r.advance script).value.awaits = false) :
    (r.round script).value = (r.advance script).value := by
  simp only [round, Logged.value_bind, h]
  rfl

/-- A round that executes no statement is the last one. -/
theorem isOver_round (hrunning : r.interpreter.status = .running)
    (hnone : r.interpreter.executed? = none) : (r.round script).value.isOver = true := by
  have hidle := Interpreter.executed?_eq_none_iff.mp hnone
  have hhalted : (r.firstStep script).value.status = .halted :=
    (Interpreter.stepsTo_step (script.requests (r.outputs + 1))
      r.interpreter).halted_of_idle hrunning hidle
  rw [round_of_not_awaits script (by simp [awaits, hhalted])]
  simp [isOver, hhalted]

/-- A round that breaks off is the last one. -/
theorem isOver_round_of_oversized {digits : Nat}
    (h : Event.oversized? (r.firstStep script).events = some digits) :
    (r.round script).value.isOver = true := by
  have habort : (r.advance script).value.abort = some (.oversized digits) := by
    rw [abort_advance, h]
    rfl
  have hawaits : (r.advance script).value.awaits = false := by
    rw [awaits, habort]
    exact Bool.and_false _
  rw [round_of_not_awaits script hawaits, isOver, habort]
  exact Bool.or_true _

theorem stepsLeft_le (r : Run) : r.stepsLeft ≤ r.interpreter.stepsLeft := by
  unfold stepsLeft
  split
  · exact Nat.zero_le _
  · exact Nat.le_refl _

theorem stepsLeft_of_isOver (h : r.isOver = true) : r.stepsLeft = 0 := if_pos h

theorem stepsLeft_ask (exhausted : Exhausted) (r : Run) :
    (r.ask exhausted).value.interpreter.stepsLeft ≤ r.interpreter.stepsLeft := by
  have hanswer (q : Run) (text : String) :
      (q.answer text).value.interpreter.stepsLeft ≤ q.interpreter.stepsLeft := by
    rw [interpreter_answer]
    exact (Interpreter.resumesTo_resume text q.interpreter).stepsLeft_le
  unfold ask
  cases r.answers with
  | cons text rest => exact hanswer _ text
  | nil =>
    cases exhausted with
    | blank => exact hanswer r ""
    | stop farewell => exact Interpreter.stepsLeft_stop r.interpreter

/-- A round executes at most what was left, whether it breaks off or not. -/
theorem stepsLeft_round (hforward : r.interpreter.program.IsForward) (hover : r.isOver = false) :
    r.interpreter.executed?.isSome.toNat + (r.round script).value.stepsLeft ≤ r.stepsLeft := by
  have hleft : r.stepsLeft = r.interpreter.stepsLeft := if_neg (Bool.eq_false_iff.mp hover)
  rw [hleft]
  cases hoversized : Event.oversized? (r.firstStep script).events with
  | some digits =>
    obtain ⟨s, hexecutes, -⟩ := Interpreter.exists_breaksOff_of_oversized hoversized
    have hbehind := Interpreter.weight_behind_lt hexecutes
    have hone := Bool.toNat_le r.interpreter.executed?.isSome
    rw [stepsLeft_of_isOver (isOver_round_of_oversized script hoversized)]
    omega
  | none =>
    have hstep := Interpreter.stepsLeft_step hforward _ hoversized
    rw [← firstStep, ← interpreter_advance] at hstep
    have hround := stepsLeft_le (r.round script).value
    have hasked := stepsLeft_ask script.exhausted (r.advance script).value
    have hrest : (r.round script).value.interpreter.stepsLeft ≤
        (r.advance script).value.interpreter.stepsLeft := by
      simp only [round, Logged.value_bind]
      split
      · exact hasked
      · exact Nat.le_refl _
    omega

/-- What is executed in some rounds was left before them. -/
theorem executions_le_stepsLeft (fuel : Nat) (hforward : r.interpreter.program.IsForward) :
    r.executions script fuel ≤ r.stepsLeft := by
  induction fuel generalizing r with
  | zero => exact Nat.zero_le _
  | succ fuel ih =>
    unfold executions
    split
    · exact Nat.zero_le _
    · next hover =>
      have hround := stepsLeft_round script hforward (Bool.eq_false_iff.mpr hover)
      have hrest := ih (r := (r.round script).value) (by rwa [program_round])
      omega

/-- A run that is not over after some rounds has executed a statement in each
of them. -/
theorem isOver_or_le_executions (fuel : Nat) (log : Array Event)
    (h : r.Contained program lines) (hidle : r.interpreter.status ≠ .idle) :
    (r.drive script fuel log).1.isOver = true ∨ fuel ≤ r.executions script fuel := by
  induction fuel generalizing r lines log with
  | zero => exact .inr (Nat.zero_le _)
  | succ fuel ih =>
    cases hover : r.isOver with
    | true => exact .inl (by rwa [drive_of_isOver script hover])
    | false =>
      have hrunning := running_of_contained h hidle hover
      cases hexecuted : r.interpreter.executed? with
      | none =>
        have hlast := isOver_round script hrunning hexecuted
        exact .inl (by rwa [drive_of_isOver_round script hover hlast])
      | some s =>
        have hrest := ih (log ++ (r.round script).events) (contained_round script h hover)
          (status_round_ne_idle script hidle)
        simp only [drive, executions, hover, hexecuted, Option.isSome_some, Bool.toNat_true]
        refine hrest.imp id fun hle => ?_
        simp only [Bool.false_eq_true, if_false]
        omega

end Rounds

end Run

/-- How many statements a script executes of a program in `fuel` rounds. -/
def Interpreter.executions (fuel : Nat) (script : Script) (program : Program) (i : Interpreter) :
    Nat :=
  Run.executions script fuel (i.begin program script.answers).value

/-- What is left to a run that is over: it has halted, or it waits at an INPUT statement
that cannot be completed, or it is still at a line number that the host does not read. -/
theorem Run.Contained.unread_iff {program : Program} {r : Run} {lines : List String}
    (h : r.Contained program lines) (hover : r.isOver = true) {digits : Nat} :
    r.abort = some (.oversized digits) ↔
      r.interpreter.status = .running ∧ Unread r.interpreter digits := by
  constructor
  · intro hr
    exact (h.broken digits hr).2
  · rintro ⟨hrunning, s, hs, haction⟩
    match hr : r.abort with
    | none => simp [isOver, hr, hrunning] at hover
    | some (.fault f) =>
      rw [(h.escaped f hr).2.1] at hrunning
      cases hrunning
    | some (.oversized digits') =>
      obtain ⟨-, -, s', hs', haction'⟩ := h.broken digits' hr
      cases hs.symm.trans hs'
      rcases haction with heq | heq <;> rcases haction' with heq' | heq' <;>
        cases heq.symm.trans heq' <;> rfl

/-- A program that only leads forward is executed at most `3 ^ n` statements far,
and its run is then over, however it is answered and whatever its host asks for.
It has halted unless something broke it off. That is a fault exactly if the run waits at
an INPUT statement whose variable has no name in upper case, and a line number that the
host does not read exactly if the run is still at a jump or a call with that number;
without such statements the run always halts. -/
theorem Run.forward_run_ends {program : Program} (hforward : program.IsForward)
    (i : Interpreter) (script : Script) (fuel : Nat) :
    let run := i.run fuel script program
    let final := run.value.interpreter
    i.executions fuel script program ≤ 3 ^ program.size ∧
    (3 ^ program.size ≤ fuel →
      (final.status = .halted ↔ run.value.abort = none) ∧
      (∀ f, run.value.abort = some (.fault f) ↔
        final.status = .waiting ∧ Run.Unbindable final f) ∧
      (∀ digits, run.value.abort = some (.oversized digits) ↔
        final.status = .running ∧ Run.Unread final digits) ∧
      ((∀ s ∈ program.statements, s.IsAnswerable ∧ s.IsRead) → final.status = .halted)) := by
  intro run final
  have hstart : (i.load program).start.value.stepsLeft < 2 ^ program.size :=
    Interpreter.stepsLeft_start (i.load program)
  have hpow : 2 ^ program.size ≤ 3 ^ program.size := Nat.pow_le_pow_left (by decide) _
  have hexecutions : i.executions fuel script program < 2 ^ program.size :=
    Nat.lt_of_le_of_lt (Nat.le_trans (executions_le_stepsLeft script fuel hforward)
      (stepsLeft_le _)) hstart
  refine ⟨by omega, fun hfuel => ?_⟩
  have hcontained : run.value.Contained program (Event.lines run.events) :=
    contained_run fuel script program i
  have hover : run.value.isOver = true := by
    rcases isOver_or_le_executions script fuel (i.begin program script.answers).events.toArray
      (contained_start (i.load program) script.answers) (by simp [Interpreter.start])
      with hover | hle
    · exact hover
    · have hless : fuel < 2 ^ program.size := Nat.lt_of_le_of_lt hle hexecutions
      omega
  have hhalted : final.status = .halted ↔ run.value.abort = none := by
    constructor
    · intro hstatus
      exact hcontained.abort_eq_none hstatus
    · intro hnone
      simpa [isOver, hnone] using hover
  refine ⟨hhalted, fun f => hcontained.fault_iff, fun digits => hcontained.unread_iff hover,
    fun hall => hhalted.mpr ?_⟩
  have hmem {s : Statement} (hs : final.program.statementAt? final.machine.place = some s) :
      s.IsAnswerable ∧ s.IsRead := by
    rw [hcontained.keeps] at hs
    exact hall s (List.mem_of_getElem? hs)
  cases habort : run.value.abort with
  | none => rfl
  | some a =>
    cases a with
    | fault f =>
      obtain ⟨-, s, name, prompt, hs, haction, hname, -⟩ := hcontained.fault_iff.mp habort
      have hanswerable := (hmem hs).1
      rw [Statement.IsAnswerable, haction] at hanswerable
      simp [hname] at hanswerable
    | oversized digits =>
      obtain ⟨-, s, hs, haction⟩ := (hcontained.unread_iff hover).mp habort
      have hread := (hmem hs).2
      unfold Statement.IsRead at hread
      rcases haction with heq | heq <;> simp [heq] at hread

/-- Two subroutines, one behind the other, that are entered from several places. -/
def stackedCalls : Program :=
  (Program.load ["10 IF 1 = 1 THEN GOSUB 20", "20 GOSUB 30", "30 PRINT 1",
    "40 RETURN"]).toOption.getD .empty

/-- The last return, after four prints, finds nothing to return to. -/
theorem forward_run_ends_at_stackedCalls :
    let i : Interpreter := ⟨0, .empty, {}, .idle, none, none, ⟨#[], 0⟩⟩
    let run := i.run 81 {} stackedCalls
    stackedCalls.IsForward ∧ i.executions 81 {} stackedCalls ≤ 81 ∧
      run.value.interpreter.status = .halted ∧ Event.lines run.events =
        ["1", "1", "1", "1", "Error at line 40: RETURN without GOSUB"] := by
  intro i run
  have hforward : stackedCalls.IsForward := by decide +kernel
  have hall : ∀ s ∈ stackedCalls.statements, s.IsAnswerable ∧ s.IsRead := by decide +kernel
  obtain ⟨hexecutions, hends⟩ := Run.forward_run_ends hforward i {} 81
  obtain ⟨-, -, -, hhalted⟩ := hends (by decide +kernel)
  exact ⟨hforward, hexecutions, hhalted hall, by decide +kernel⟩

/-- A single INPUT statement need not halt: the fault of its answer leaves the
run waiting. -/
theorem forward_run_not_halted_at_inputOfNoName :
    ¬ ∀ lines program (i : Interpreter) script, Program.load lines = .ok program →
      program.IsForward → ∃ fuel, (i.run fuel script program).value.interpreter.status = .halted := by
  intro h
  have hload : Program.load ["10 INPUT A\u01F0"] = .ok inputOfNoName := rfl
  have hforward : inputOfNoName.IsForward := by decide +kernel
  let i : Interpreter := { generator := ⟨#[], 0⟩ }
  let script : Script := { answers := ["1"] }
  let r : Run := { interpreter := (i.load inputOfNoName).start.value, answers := ["1"] }
  obtain ⟨fuel, hhalted⟩ := h _ _ i script hload hforward
  cases fuel with
  | zero => cases hhalted
  | succ fuel =>
    have hrun : (i.run (fuel + 1) script inputOfNoName).value = (r.round script).value :=
      Run.drive_of_isOver_round (r := r) script (by decide +kernel) (by decide +kernel) fuel _
    have hwaiting : (r.round script).value.interpreter.status = .waiting := by decide +kernel
    rw [hrun, hwaiting] at hhalted
    cases hhalted

end LineBasic
