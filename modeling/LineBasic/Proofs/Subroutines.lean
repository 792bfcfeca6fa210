import LineBasic.Proofs.Abandonment
import Mathlib.Data.List.Infix

/-!
Calls and returns over whole runs. A run is any sequence of operations behind a
start that neither load nor start a program. `Turns` lists what one of them can
do to the indices to return to: a call puts the index behind itself on top, a
return takes the one on top and goes there, everything else leaves them alone,
and a fault ends the run above them.

From that the calls and returns of a run bracket: the frame of a call, which is
its index with everything below it, stays where it is until the return that
brings the depth back, and the depth counts the calls that have not returned.
-/

namespace LineBasic

/-- Whether an operation belongs to the run that is under way. -/
def Operation.GoesOn : Operation → Prop
  | .load _ | .start _ => False
  | _ => True

instance : DecidablePred Operation.GoesOn
  | .load _ | .start _ => isFalse id
  | .step _ | .resume _ | .requestBreak | .stop => isTrue trivial

namespace Interpreter

def after (i : Interpreter) : List Operation → Interpreter
  | [] => i
  | o :: os => (i.operate o).value.2.after os

theorem after_append (i : Interpreter) (os os' : List Operation) :
    i.after (os ++ os') = (i.after os).after os' := by
  induction os generalizing i with
  | nil => rfl
  | cons o os ih => exact ih _

def depth (i : Interpreter) : Nat := i.machine.returns.length

def executed? (i : Interpreter) : Option Statement :=
  if i.status = .running ∧ i.machine.running = true ∧ i.machine.breakRequested = false then
    i.program.statementAt? i.machine.place
  else none

/-- The command that an operation carries out, which only a step does. -/
def carriedOut? (i : Interpreter) : Operation → Option Command
  | .step _ => i.executed?.bind i.reached?
  | _ => none

/-- Whether an operation calls a subroutine: it carries out GOSUB, and the line
exists. A call that breaks off, because its line number is not read, has put its
index on top by then. -/
def calls (i : Interpreter) (o : Operation) : Bool :=
  match i.carriedOut? o with
  | some (.gosub (.line target)) => (i.program.indexOf? target).isSome
  | some (.gosub (.oversized _)) => true
  | _ => false

/-- Whether an operation returns from a subroutine: it carries out RETURN, and
there is an index to return to. -/
def comesBack (i : Interpreter) (o : Operation) : Bool :=
  match i.carriedOut? o with
  | some .ret => !i.machine.returns.isEmpty
  | _ => false

/-- How many operations of a sequence have a property where they are done. -/
def countAlong (p : Interpreter → Operation → Bool) (i : Interpreter) : List Operation → Nat
  | [] => 0
  | o :: os => (p i o).toNat + countAlong p (i.operate o).value.2 os

section Executed

variable {i : Interpreter} {s : Statement}

theorem executed?_eq_some_iff : i.executed? = some s ↔ i.Executes s := by
  unfold executed? Executes
  split
  · next hon => simp [hon]
  · next hoff =>
    constructor
    · intro h
      cases h
    · rintro ⟨hstatus, hrunning, hbreak, -⟩
      exact absurd ⟨hstatus, hrunning, hbreak⟩ hoff

theorem executed?_eq_none_iff : i.executed? = none ↔ ∀ s, ¬ i.Executes s := by
  rw [Option.eq_none_iff_forall_ne_some]
  exact forall_congr' fun s => not_congr executed?_eq_some_iff

theorem carriedOut?_step (h : i.Executes s) (requests : List Request) :
    i.carriedOut? (.step requests) = i.reached? s := by
  rw [carriedOut?, executed?_eq_some_iff.mpr h]
  rfl

theorem raised?_of_gosub {target : Nat} (h : i.reached? s = some (.gosub (.line target))) :
    i.raised? s =
      if i.program.indexOf? target = none then some (.missingLine target) else none := by
  unfold raised?
  rw [outcome_of_gosub h]

theorem raised?_of_oversized {digits : Nat}
    (h : i.reached? s = some (.gosub (.oversized digits))) : i.raised? s = none := by
  unfold raised?
  rw [outcome_of_gosub h]

theorem raised?_of_ret (h : i.reached? s = some .ret) :
    i.raised? s = if i.machine.returns = [] then some .returnWithoutGosub else none := by
  unfold raised?
  rw [outcome_of_ret h]
  cases i.machine.returns <;> rfl

end Executed

section Returns

variable (requests : List Request) (line : Nat) (i : Interpreter)

theorem returns_moveTo (index : Nat) :
    (i.moveTo index).value.machine.returns = i.machine.returns := by
  rw [value_moveTo]
  split <;> rfl

theorem returns_follow (t : Transfer) :
    (i.follow requests line t).value.machine.returns = i.machine.returns := by
  cases t with
  | advance => exact i.returns_moveTo _
  | moveTo index => exact i.returns_moveTo _
  | finish => rfl
  | await name prompt => rfl
  | jump target =>
    cases target with
    | oversized digits => rfl
    | line number =>
      simp only [follow]
      split
      · simp [ended]
      · exact i.returns_moveTo _

/-- Only the effect of a statement changes the indices to return to, not where
the run goes. -/
theorem returns_enact (effect : Effect) :
    (i.enact requests line effect).value.machine.returns = effect.machine.returns := by
  unfold enact
  cases effect.output with
  | none => exact returns_follow _ _ _ _
  | some text =>
    simp only [Logged.value_bind, value_output]
    exact (returns_follow _ _ _ _).trans (by simp)

theorem resume_frame (answer : String) :
    (i.resume answer).value.2.machine.returns = i.machine.returns ∧
      (i.resume answer).value.2.fault = i.fault := by
  unfold resume
  split
  · simp only
    split
    · exact ⟨rfl, rfl⟩
    · exact ⟨returns_moveTo _ _, fault_moveTo _ _⟩
  · exact ⟨rfl, rfl⟩

end Returns

inductive Turns (i : Interpreter) (o : Operation) (k : Interpreter) : Prop
  | call (hcalls : i.calls o = true) (hback : i.comesBack o = false)
      (hreturns : k.machine.returns = (i.machine.place + 1) :: i.machine.returns)
      (hfault : k.fault = i.fault)
  | back (hcalls : i.calls o = false) (hback : i.comesBack o = true)
      (hreturns : i.machine.returns = k.machine.place :: k.machine.returns)
      (hstatus : k.status =
        if i.program.size ≤ k.machine.place then .halted else .running)
      (hfault : k.fault = i.fault)
  | keep (hcalls : i.calls o = false) (hback : i.comesBack o = false)
      (hreturns : k.machine.returns = i.machine.returns) (hfault : k.fault = i.fault)
  | fail (hcalls : i.calls o = false) (hback : i.comesBack o = false)
      (hreturns : i.machine.returns <:+ k.machine.returns) (hfault : k.fault.isSome = true)
      (hstatus : k.status = .halted)

section Step

variable {i : Interpreter} {s : Statement} (requests : List Request)

theorem calls_step_iff (h : i.Executes s) : i.calls (.step requests) = true ↔
    i.raised? s = none ∧ ∃ target, i.reached? s = some (.gosub target) := by
  simp only [calls, carriedOut?_step h]
  split
  · next target hreached =>
    simp [raised?_of_gosub hreached, hreached, Option.isSome_iff_ne_none]
  · next digits hreached => simp [raised?_of_oversized hreached, hreached]
  · next hline hoversized =>
    refine iff_of_false Bool.false_ne_true ?_
    rintro ⟨-, target | digits, hreached⟩
    · exact hline target hreached
    · exact hoversized digits hreached

theorem comesBack_step_iff (h : i.Executes s) : i.comesBack (.step requests) = true ↔
    i.raised? s = none ∧ i.reached? s = some .ret := by
  simp only [comesBack, carriedOut?_step h]
  split
  · next hreached => simp [raised?_of_ret hreached, hreached]
  · next hother => simpa using fun _ => hother

theorem turns_of_raised {f : Fault} (hexecutes : i.Executes s) (hf : i.raised? s = some f) :
    i.Turns (.step requests) (i.step requests).value := by
  have hvalue := value_step_of_raised hexecutes hf requests
  refine .fail ?_ ?_ ?_ (by simp [hvalue]) (by simp [hvalue])
  · refine Bool.eq_false_iff.mpr fun hcalls => ?_
    have hquiet := ((calls_step_iff requests hexecutes).mp hcalls).1
    simp [hf] at hquiet
  · refine Bool.eq_false_iff.mpr fun hback => ?_
    have hquiet := ((comesBack_step_iff requests hexecutes).mp hback).1
    simp [hf] at hquiet
  · rw [hvalue]
    change i.machine.returns <:+ i.returnsAtFault s
    unfold returnsAtFault
    split
    · split
      · exact List.suffix_cons _ _
      · exact List.suffix_rfl
    · exact List.suffix_rfl

/-- A return without a fault goes to the index on top. -/
theorem turns_of_ret (hexecutes : i.Executes s) (hquiet : i.raised? s = none)
    (hret : i.reached? s = some .ret) : i.Turns (.step requests) (i.step requests).value := by
  obtain ⟨effect, hout, hvalue, hfault⟩ := exists_effect_of_quiet hexecutes hquiet requests
  rw [outcome_of_ret hret] at hout
  cases hstack : i.machine.returns with
  | nil => simp [hstack] at hout
  | cons index returns =>
    rw [hstack] at hout
    cases hout
    have hmoved : (i.step requests).value =
        ({ i.drawn s with machine := { i.machine with returns := returns } }.moveTo
          index).value := hvalue
    rw [value_moveTo] at hmoved
    have hplace : (i.step requests).value.machine.place = index := by
      rw [hmoved]
      split <;> rfl
    refine .back ?_ ((comesBack_step_iff requests hexecutes).mpr ⟨hquiet, hret⟩) ?_ ?_ hfault
    · simp only [calls, carriedOut?_step hexecutes, hret]
    · rw [hplace, hmoved, hstack]
      split <;> rfl
    · rw [hplace, hmoved]
      split
      · next hend => exact (if_pos hend).symm
      · next hinside => exact hexecutes.1.trans (if_neg hinside).symm

theorem turns_of_quiet (hexecutes : i.Executes s) (hquiet : i.raised? s = none) :
    i.Turns (.step requests) (i.step requests).value := by
  by_cases hret : i.reached? s = some .ret
  · exact turns_of_ret requests hexecutes hquiet hret
  have hback : i.comesBack (.step requests) = false :=
    Bool.eq_false_iff.mpr fun hback => hret ((comesBack_step_iff requests hexecutes).mp hback).2
  obtain ⟨effect, hout, hvalue, hfault⟩ := exists_effect_of_quiet hexecutes hquiet requests
  have hreturns : (i.step requests).value.machine.returns = effect.machine.returns := by
    rw [hvalue, returns_enact]
  by_cases hgosub : ∃ target, i.reached? s = some (.gosub target)
  · have hcalls := (calls_step_iff requests hexecutes).mpr ⟨hquiet, hgosub⟩
    obtain ⟨target, hreached⟩ := hgosub
    rw [outcome_of_gosub hreached] at hout
    cases hout
    exact .call hcalls hback hreturns hfault
  · have hcalls : i.calls (.step requests) = false :=
      Bool.eq_false_iff.mpr fun hcalls => hgosub ((calls_step_iff requests hexecutes).mp hcalls).2
    refine .keep hcalls hback ?_ hfault
    rw [hreturns]
    exact returns_of_outcome hout (fun target h => hgosub ⟨target, h⟩) hret

/-- What an operation of a run does to the indices to return to. -/
theorem turns_operate (i : Interpreter) {o : Operation} (ho : o.GoesOn) :
    i.Turns o (i.operate o).value.2 := by
  cases o with
  | load program => exact absurd ho id
  | start program => exact absurd ho id
  | step requests =>
    change i.Turns (.step requests) (i.step requests).value
    cases hexecuted : i.executed? with
    | none =>
      have hnone : i.carriedOut? (.step requests) = none := by rw [carriedOut?, hexecuted]; rfl
      have hidle := executed?_eq_none_iff.mp hexecuted
      refine .keep (by simp only [calls, hnone]) (by simp only [comesBack, hnone]) ?_ ?_
      · rcases value_step_of_idle hidle requests with hvalue | hvalue | hvalue <;>
          simp [hvalue, ended]
      · exact fault_step (fun s hs => absurd hs (hidle s)) requests
    | some s =>
      have hexecutes := executed?_eq_some_iff.mp hexecuted
      cases hraised : i.raised? s with
      | none => exact turns_of_quiet requests hexecutes hraised
      | some f => exact turns_of_raised requests hexecutes hraised
  | resume answer =>
    exact .keep rfl rfl (i.resume_frame answer).1 (i.resume_frame answer).2
  | requestBreak => exact .keep rfl rfl rfl rfl
  | stop =>
    change i.Turns .stop i.stop.value
    rw [← asked_stop]
    exact .keep rfl rfl (by simp) (by simp)

theorem program_operate (i : Interpreter) {o : Operation} (ho : o.GoesOn) :
    (i.operate o).value.2.program = i.program := by
  cases o with
  | load program => exact absurd ho id
  | start program => exact absurd ho id
  | step requests => exact program_step requests i
  | resume answer => exact program_resume answer i
  | requestBreak => rfl
  | stop =>
    change i.stop.value.program = i.program
    rw [← asked_stop, program_asked]

/-- A run that has ended does not go on. -/
theorem status_operate_of_halted {i : Interpreter} (h : i.status = .halted) {o : Operation}
    (ho : o.GoesOn) : (i.operate o).value.2.status = .halted := by
  cases o with
  | load program => exact absurd ho id
  | start program => exact absurd ho id
  | step requests => simp [operate, step, h]
  | resume answer => simp [operate, resume, h]
  | requestBreak => exact h
  | stop =>
    change i.stop.value.status = .halted
    rw [value_stop]
    split
    · rfl
    · exact h

/-- A fault ends the run for good. -/
theorem halted_operate {i : Interpreter} (h : i.fault.isSome = true → i.status = .halted)
    {o : Operation} (ho : o.GoesOn) (hfault : (i.operate o).value.2.fault.isSome = true) :
    (i.operate o).value.2.status = .halted := by
  cases i.turns_operate ho with
  | call _ _ _ hsame | back _ _ _ _ hsame | keep _ _ _ hsame =>
    rw [hsame] at hfault
    exact status_operate_of_halted (h hfault) ho
  | fail _ _ _ _ hstatus => exact hstatus

end Step

section Run

variable {i : Interpreter} {o : Operation} {os : List Operation}

theorem program_after (hos : ∀ o ∈ os, o.GoesOn) : (i.after os).program = i.program := by
  induction os generalizing i with
  | nil => rfl
  | cons o os ih =>
    obtain ⟨ho, hos⟩ := List.forall_mem_cons.mp hos
    exact (ih hos).trans (i.program_operate ho)

theorem halted_after (h : i.fault.isSome = true → i.status = .halted)
    (hos : ∀ o ∈ os, o.GoesOn) :
    (i.after os).fault.isSome = true → (i.after os).status = .halted := by
  induction os generalizing i with
  | nil => exact h
  | cons o os ih =>
    obtain ⟨ho, hos⟩ := List.forall_mem_cons.mp hos
    exact ih (halted_operate h ho) hos

/-- A fault is there to stay. -/
theorem fault_after (h : i.fault.isSome = true) (hos : ∀ o ∈ os, o.GoesOn) :
    (i.after os).fault.isSome = true := by
  induction os generalizing i with
  | nil => exact h
  | cons o os ih =>
    obtain ⟨ho, hos⟩ := List.forall_mem_cons.mp hos
    refine ih ?_ hos
    cases i.turns_operate ho with
    | call _ _ _ hsame | back _ _ _ _ hsame | keep _ _ _ hsame => rwa [hsame]
    | fail _ _ _ hfault => exact hfault

/-- Before a fault, the calls of a run are those that have returned and those
that have not. -/
theorem countAlong_calls (hos : ∀ o ∈ os, o.GoesOn) (h : (i.after os).fault = none) :
    i.countAlong calls os + i.depth = (i.after os).depth + i.countAlong comesBack os := by
  induction os generalizing i with
  | nil => simp [countAlong, after]
  | cons o os ih =>
    obtain ⟨ho, hos⟩ := List.forall_mem_cons.mp hos
    have hcount := ih hos h
    rw [after] at h ⊢
    rw [countAlong, countAlong]
    cases i.turns_operate ho with
    | call hcalls hback hreturns _ =>
      have hdepth : (i.operate o).value.2.depth = i.depth + 1 := by simp [depth, hreturns]
      simp only [hcalls, hback, Bool.toNat_true, Bool.toNat_false]
      omega
    | back hcalls hback hreturns _ _ =>
      have hdepth : i.depth = (i.operate o).value.2.depth + 1 := by simp [depth, hreturns]
      simp only [hcalls, hback, Bool.toNat_true, Bool.toNat_false]
      omega
    | keep hcalls hback hreturns _ =>
      have hdepth : (i.operate o).value.2.depth = i.depth := by simp [depth, hreturns]
      simp only [hcalls, hback, Bool.toNat_false]
      omega
    | fail _ _ _ hfault _ =>
      -- The fault would still be there at the end.
      have hstays := fault_after hfault hos
      simp [h] at hstays

/-- A frame stays where it is, or a return takes its index. -/
theorem Turns.frame {k : Interpreter} {index : Nat} {below : List Nat} (h : i.Turns o k)
    (hframe : (index :: below) <:+ i.machine.returns) :
    (index :: below) <:+ k.machine.returns ∨
      i.comesBack o = true ∧ k.machine.returns = below ∧ k.machine.place = index ∧
        k.status = if i.program.size ≤ index then .halted else .running := by
  cases h with
  | call _ _ hreturns _ =>
    rw [hreturns]
    exact .inl (hframe.trans (List.suffix_cons _ _))
  | keep _ _ hreturns _ =>
    rw [hreturns]
    exact .inl hframe
  | fail _ _ hreturns _ _ => exact .inl (hframe.trans hreturns)
  | back _ hback hreturns hstatus _ =>
    -- The index that is taken is the frame's own, or it lies above the frame.
    rw [hreturns, List.suffix_cons_iff] at hframe
    rcases hframe with hframe | hframe
    · obtain ⟨rfl, rfl⟩ := List.cons.inj hframe
      exact .inr ⟨hback, rfl, rfl, hstatus⟩
    · exact .inl hframe

/-- A frame stays where it is as long as the depth does not come back to what
it was below the frame. -/
theorem frame_after {index : Nat} {below : List Nat} (hos : ∀ o ∈ os, o.GoesOn)
    (hframe : (index :: below) <:+ i.machine.returns)
    (hdepth : ∀ front, front <+: os → (i.after front).depth ≠ below.length) :
    (index :: below) <:+ (i.after os).machine.returns := by
  induction os generalizing i with
  | nil => exact hframe
  | cons o os ih =>
    obtain ⟨ho, hos⟩ := List.forall_mem_cons.mp hos
    rcases (i.turns_operate ho).frame hframe with hframe | hback
    · refine ih hos hframe fun front hfront => ?_
      exact hdepth (o :: front) (List.cons_prefix_cons.mpr ⟨rfl, hfront⟩)
    · refine absurd ?_ (hdepth [o] (List.cons_prefix_cons.mpr ⟨rfl, List.nil_prefix⟩))
      exact congrArg List.length hback.2.1

structure FirstBack (i : Interpreter) (call : Operation) (os : List Operation)
    (last : Operation) : Prop where
  deeper : ∀ front, front <+: os → (i.after (call :: front)).depth ≠ i.depth
  back : (i.after (call :: (os ++ [last]))).depth = i.depth

/-- What brings the depth back behind a call is the return to the index behind
the call, with everything below its frame as it was. -/
theorem frame_of_firstBack {call last : Operation} (hcalls : i.calls call = true)
    (hcall : call.GoesOn) (hos : ∀ o ∈ os ++ [last], o.GoesOn) (h : i.FirstBack call os last) :
    let k := i.after (call :: (os ++ [last]))
    (i.after (call :: os)).comesBack last = true ∧ k.machine.returns = i.machine.returns ∧
      k.machine.place = i.machine.place + 1 ∧
      k.status = if i.program.size ≤ i.machine.place + 1 then .halted else .running := by
  intro k
  have hfront : ∀ o ∈ os, o.GoesOn := fun o ho => hos o (List.mem_append_left _ ho)
  have hlast : last.GoesOn := hos last (by simp)
  have hk : k = ((i.after (call :: os)).operate last).value.2 := by
    change (i.operate call).value.2.after (os ++ [last]) = _
    rw [after_append]
    rfl
  have hpushed : (i.operate call).value.2.machine.returns =
      (i.machine.place + 1) :: i.machine.returns := by
    cases i.turns_operate hcall with
    | call _ _ hreturns _ => exact hreturns
    | back hno | keep hno | fail hno => simp [hno] at hcalls
  have hframe : ((i.machine.place + 1) :: i.machine.returns) <:+
      (i.after (call :: os)).machine.returns := by
    refine frame_after (i := (i.operate call).value.2) hfront ?_ h.deeper
    rw [hpushed]
  have hprogram : (i.after (call :: os)).program = i.program := program_after (by simpa [hcall])
  rcases ((i.after (call :: os)).turns_operate hlast).frame hframe with hstays | hback
  · -- The frame is longer than what the depth has come back to.
    have hlength := hstays.length_le
    rw [← hk] at hlength
    have hdepth : k.machine.returns.length = i.machine.returns.length := h.back
    rw [List.length_cons, hdepth] at hlength
    omega
  · rw [← hk, hprogram] at hback
    exact hback

end Run

/-- A subroutine that calls another one from within a clause. -/
def nestedCalls : Program :=
  (Program.load ["10 GOSUB 30", "20 END", "30 IF 1 = 1 THEN GOSUB 50", "40 RETURN",
    "50 RETURN"]).toOption.getD .empty

end Interpreter

namespace Run

variable {r : Run}

theorem interpreter_answer (text : String) :
    (r.answer text).value.interpreter = (r.interpreter.resume text).value.2 := by
  simp only [answer, Logged.value_bind]
  split <;> rfl

/-- What a waiting interpreter is asked for is an answer or a stop. -/
theorem exists_operation_ask (exhausted : Exhausted) : ∃ o : Operation, o.GoesOn ∧
    (r.ask exhausted).value.interpreter = (r.interpreter.operate o).value.2 := by
  unfold ask
  cases r.answers with
  | cons text rest => exact ⟨.resume text, trivial, interpreter_answer text⟩
  | nil =>
    cases exhausted with
    | blank => exact ⟨.resume "", trivial, interpreter_answer ""⟩
    | stop farewell => exact ⟨.stop, trivial, rfl⟩

/-- A round is a step and at most one operation more. -/
theorem exists_operations_round (script : Script) : ∃ os : List Operation,
    (∀ o ∈ os, o.GoesOn) ∧ (r.round script).value.interpreter = r.interpreter.after os := by
  let step := Operation.step (script.requests (r.outputs + 1))
  have hstep : ∀ o ∈ [step], o.GoesOn := List.forall_mem_singleton.mpr trivial
  have hafter : (r.advance script).value.interpreter = r.interpreter.after [step] :=
    interpreter_advance script r
  simp only [round, Logged.value_bind]
  split
  · obtain ⟨o, ho, hask⟩ := exists_operation_ask (r := (r.advance script).value) script.exhausted
    have hboth : ∀ o' ∈ [step, o], o'.GoesOn :=
      List.forall_mem_cons.mpr ⟨trivial, List.forall_mem_singleton.mpr ho⟩
    refine ⟨[step, o], hboth, ?_⟩
    rw [hask, hafter]
    rfl
  · exact ⟨[step], hstep, hafter⟩

theorem exists_operations_drive (script : Script) (fuel : Nat) (log : Array Event) :
    ∃ os : List Operation, (∀ o ∈ os, o.GoesOn) ∧
      (r.drive script fuel log).1.interpreter = r.interpreter.after os := by
  induction fuel generalizing r log with
  | zero => exact ⟨[], List.forall_mem_nil _, rfl⟩
  | succ fuel ih =>
    unfold drive
    split
    · exact ⟨[], List.forall_mem_nil _, rfl⟩
    · obtain ⟨os, hos, hround⟩ := r.exists_operations_round script
      obtain ⟨os', hos', hdrive⟩ := ih (log ++ (r.round script).events)
      refine ⟨os ++ os', List.forall_mem_append.mpr ⟨hos, hos'⟩, ?_⟩
      rw [hdrive, hround, Interpreter.after_append]

end Run

/-- What a script makes of a program is a run. -/
theorem Interpreter.exists_operations_run (i : Interpreter) (fuel : Nat) (script : Script)
    (program : Program) : ∃ os : List Operation, (∀ o ∈ os, o.GoesOn) ∧
      (i.run fuel script program).value.interpreter =
        (i.operate (.start (some program))).value.2.after os :=
  Run.exists_operations_drive script fuel _

end LineBasic
