import LineBasic.Interpreter
import LineBasic.Proofs.Executions

/-!
What the commands can do to a machine. `Machine.Allows` lists the effects, and
`Command.endsAs_execute` says how executing a command ends, also inside the clauses of
nested branches: it has one of the effects of its command, or it faults and has written
and output nothing. Whatever every effect keeps, every statement keeps.

A statement that is executed is therefore a fault or an effect (`Interpreter.outcome`), and
performing it is reporting the one or putting the other into force
(`Interpreter.perform_eq`).
-/

namespace LineBasic

/-- Whether every variable name in a command has been checked and put into
upper case. -/
def Command.HasCheckedNames : Command → Prop
  | .assign name _ | .input name _ | .next name => ∃ s, normalName s = .ok name
  | .loop header => ∃ s, normalName s = .ok header.name
  | .branch _ _ body => body.HasCheckedNames
  | _ => True

namespace Command

theorem hasCheckedNames_withName {name : List Char} {k : String → Command}
    (h : ∀ key, normalName (String.ofList name) = .ok key → (k key).HasCheckedNames) :
    (withName name k).HasCheckedNames := by
  unfold withName
  split
  · next key hkey => exact h key hkey
  · trivial

theorem hasCheckedNames_assignment (name value : List Char) :
    (assignment name value).HasCheckedNames :=
  hasCheckedNames_withName fun _ hkey => ⟨_, hkey⟩

/-- Reading a statement checks every variable name in it, also those in the
clauses of nested branches. -/
theorem hasCheckedNames_ofTrimmed (code : List Char) : (ofTrimmed code).HasCheckedNames := by
  fun_induction ofTrimmed code with
  | case1 | case4 => exact hasCheckedNames_assignment _ _
  | case6 | case16 | case18 => exact hasCheckedNames_withName fun _ hkey => ⟨_, hkey⟩
  | case15 code rest hcode condition clause hclause hdigits ih => exact ih
  | _ => trivial

def innermost : Command → Command
  | .branch _ _ body => body.innermost
  | c => c

theorem hasCheckedNames_innermost {c : Command} (h : c.HasCheckedNames) :
    c.innermost.HasCheckedNames := by
  induction c with
  | branch condition clause body ih => exact ih h
  | _ => exact h

end Command

def Statement.action (s : Statement) : Command :=
  (Command.ofText (Text.trimString s.code)).innermost

theorem Statement.hasCheckedNames_action (s : Statement) : s.action.HasCheckedNames :=
  Command.hasCheckedNames_innermost (Command.hasCheckedNames_ofTrimmed _)

structure Effect where
  machine : Machine
  transfer : Transfer := .advance
  output : Option String := none
deriving DecidableEq

inductive Machine.Allows (m : Machine) : Command → Effect → Prop
  | skip (c : Command) : m.Allows c { machine := m }
  | print (items : List PrintItem) (line : String) :
      m.Allows (.print items) { machine := m, output := some line }
  | assign {name : String} {value : List Char} {v : Value} {environment : Environment}
      (hset : m.environment.set name v = .ok environment) :
      m.Allows (.assign name value) { machine := { m with environment := environment } }
  | await (name prompt : String) :
      m.Allows (.input name prompt) { machine := m, transfer := .await name prompt }
  | jump (target : LineNumber) : m.Allows (.goto target) { machine := m, transfer := .jump target }
  | call (target : LineNumber) :
      m.Allows (.gosub target) {
        machine := { m with returns := (m.place + 1) :: m.returns }
        transfer := .jump target }
  | back {index : Nat} {returns : List Nat} (hreturns : m.returns = index :: returns) :
      m.Allows .ret { machine := { m with returns := returns }, transfer := .moveTo index }
  | enter {header : LoopHeader} {start bound step : Float} {environment : Environment}
      (hstep : (step == 0) = false)
      (hset : m.environment.set header.name (.number start) = .ok environment) :
      m.Allows (.loop header) {
        machine := { m with
          environment := environment
          loops := m.loops.insert header.name ⟨bound, step, m.place⟩ } }
  | again {name : String} {loop : ForLoop} {x : Float} {environment : Environment}
      (hloop : m.loops[name]? = some loop) (hget : m.environment.get name = .ok (.number x))
      (hset : m.environment.set name (.number (x + loop.step)) = .ok environment)
      (hgoes : loop.continuesAt (x + loop.step) = true) :
      m.Allows (.next name) {
        machine := { m with environment := environment }
        transfer := .moveTo (loop.start + 1) }
  | leave {name : String} {loop : ForLoop} {x : Float} {environment : Environment}
      (hloop : m.loops[name]? = some loop) (hget : m.environment.get name = .ok (.number x))
      (hset : m.environment.set name (.number (x + loop.step)) = .ok environment)
      (hends : loop.continuesAt (x + loop.step) = false) :
      m.Allows (.next name) {
        machine := { m with environment := environment, loops := m.loops.erase name } }
  | finish : m.Allows .finish { machine := m, transfer := .finish }

inductive Machine.EndsAs (m : Machine) (lines : List String) (c : Command) :
    Except Fault Transfer × Execution → Prop
  | effect {effect : Effect} (h : m.Allows c effect) (generator : Generator)
      (notes : List Note) :
      m.EndsAs lines c (.ok effect.transfer,
        ⟨effect.machine, generator, notes, lines ++ effect.output.toList⟩)
  | fault (f : Fault) (generator : Generator) (notes : List Note) :
      m.EndsAs lines c (.error f, ⟨m, generator, notes, lines⟩)

section Execution

variable {e : Execution} {c : Command}

theorem Machine.EndsAs.silent {effect : Effect} (h : e.machine.Allows c effect)
    (hsilent : effect.output = none) :
    e.machine.EndsAs e.lines c (.ok effect.transfer, { e with machine := effect.machine }) := by
  have hends : e.machine.EndsAs e.lines c (.ok effect.transfer,
      ⟨effect.machine, e.generator, e.notes, e.lines ++ effect.output.toList⟩) :=
    .effect h e.generator e.notes
  rwa [hsilent, Option.toList_none, List.append_nil] at hends

/-- Evaluating changes neither the machine nor what has been output. -/
theorem Machine.endsAs_eval_bind {α : Type} {x : Environment → Eval Fault α}
    {k : α → Exec Transfer}
    (h : ∀ a generator, e.machine.EndsAs e.lines c
      ((k a).run.run { e with generator := generator })) :
    e.machine.EndsAs e.lines c ((Exec.eval x >>= k).run.run e) := by
  rw [run_run_bind, Exec.run_eval]
  cases ((x e.machine.environment).run.run e.generator).1 with
  | ok a => exact h a _
  | error f => exact .fault f _ _

/-- What is checked when a loop is entered is checked before its variable is bound. -/
theorem LoopHeader.endsAs_enter (header : LoopHeader) (start bound step : Value) :
    e.machine.EndsAs e.lines (.loop header) ((header.enter start bound step).run.run e) := by
  unfold enter
  split
  · next start bound step =>
    split
    · exact .fault _ _ _
    · next hstep =>
      rw [run_run_bind, Exec.run_assign]
      cases hset : e.machine.environment.set header.name (.number start) with
      | error f => exact .fault f _ _
      | ok environment =>
        exact .silent (.enter (Bool.eq_false_iff.mpr hstep) hset) rfl
  · exact .fault _ _ _

theorem Exec.endsAs_nextRound (name : String) :
    e.machine.EndsAs e.lines (.next name) ((nextRound name).run.run e) := by
  rw [nextRound, run_run_bind, run_machine]
  dsimp only
  split
  · exact .fault _ _ _
  · next loop hloop =>
    rw [run_run_bind, run_ofExcept]
    cases hget : e.machine.environment.get name with
    | error f => exact .fault f _ _
    | ok v =>
      cases v with
      | text s => exact .fault _ _ _
      | number x =>
        dsimp only
        rw [run_run_bind, run_assign]
        cases hset : e.machine.environment.set name (.number (x + loop.step)) with
        | error f => exact .fault f _ _
        | ok environment =>
          dsimp only
          split
          · next hgoes => exact .silent (.again hloop hget hset hgoes) rfl
          · next hends => exact .silent (.leave hloop hget hset (Bool.eq_false_iff.mpr hends)) rfl

/-- Executing a command has an effect that the machine allows to the command in its
innermost clause, or it faults before it has written or output anything. -/
theorem Command.endsAs_execute (line : Nat) (c : Command) (e : Execution) :
    e.machine.EndsAs e.lines c.innermost ((c.execute line).run.run e) := by
  induction c generalizing e with
  | print items =>
    refine Machine.endsAs_eval_bind fun text generator => ?_
    exact .effect (.print items text) generator e.notes
  | assign name value =>
    refine Machine.endsAs_eval_bind fun v generator => ?_
    rw [run_run_bind, Exec.run_assign]
    cases hset : e.machine.environment.set name v with
    | error f => exact .fault f _ _
    | ok environment =>
      exact .silent (e := { e with generator := generator }) (.assign hset) rfl
  | input name prompt => exact .silent (.await name prompt) rfl
  | goto target => exact .silent (.jump target) rfl
  | gosub target => exact .silent (.call target) rfl
  | ret =>
    rw [execute, run_run_bind, Exec.run_machine]
    dsimp only
    split
    · exact .fault _ _ _
    · next hreturns => exact .silent (.back hreturns) rfl
  | branch condition clause body ih =>
    obtain ⟨notes, hbranch⟩ := Exec.run_branch e line condition clause body
    rw [hbranch]
    split
    · next generator hholds => exact ih { e with generator := generator, notes := notes }
    · next generator hholds =>
      exact .silent (e := { e with generator := generator, notes := notes }) (.skip _) rfl
    · exact .fault _ _ _
  | loop header =>
    refine Machine.endsAs_eval_bind fun start generator => ?_
    refine Machine.endsAs_eval_bind (e := { e with generator := generator })
      fun bound generator => ?_
    refine Machine.endsAs_eval_bind (e := { e with generator := generator })
      fun step generator => ?_
    exact header.endsAs_enter (e := { e with generator := generator }) start bound step
  | next name => exact Exec.endsAs_nextRound name
  | finish => exact .silent .finish rfl
  | remark => exact .silent (.skip _) rfl
  | invalid fault => exact .fault fault _ _

end Execution

namespace Interpreter

variable {i : Interpreter} {s : Statement}

/-- What executing a statement comes to, together with the execution. -/
def outcome (s : Statement) (i : Interpreter) : Except Fault Effect × Execution :=
  let (result, e) := i.execution s
  (result.map fun transfer => ⟨e.machine, transfer, e.lines.head?⟩, e)

def enact (requests : List Request) (line : Nat) (effect : Effect) (i : Interpreter) :
    Logged Interpreter := do
  let i := { i with machine := effect.machine }
  let i ← match effect.output with
    | some text => i.output requests text
    | none => pure i
  i.follow requests line effect.transfer

/-- The execution of a statement once the statement is noted. -/
def begun (s : Statement) (i : Interpreter) : Execution where
  machine := i.machine
  generator := i.generator
  notes := [⟨2, toString s.number ++ " " ++ Text.trimString s.code⟩]

theorem execution_eq (s : Statement) (i : Interpreter) : i.execution s =
    ((Command.ofText (Text.trimString s.code)).execute s.number).run.run (i.begun s) := rfl

theorem endsAs_execution (s : Statement) (i : Interpreter) :
    i.machine.EndsAs [] s.action (i.execution s) :=
  Command.endsAs_execute s.number (Command.ofText (Text.trimString s.code)) (i.begun s)

theorem outcome_of_execution {e : Execution} {t : Transfer} (h : i.execution s = (.ok t, e)) :
    (i.outcome s).1 = .ok ⟨e.machine, t, e.lines.head?⟩ := by
  rw [outcome, h]
  rfl

/-- What a statement comes to does not depend on what is noted. -/
theorem outcome_congr {j : Interpreter} {t : Statement}
    (hresult : (i.execution s).1 = (j.execution t).1)
    (hrest : (i.execution s).2.unnoted = (j.execution t).2.unnoted) :
    (i.outcome s).1 = (j.outcome t).1 ∧
      (i.outcome s).2.generator = (j.outcome t).2.generator := by
  obtain ⟨notes, hnotes⟩ := Execution.unnoted_eq_iff.mp hrest
  unfold outcome
  simp only [hresult, hnotes, and_self]

/-- A statement that does not fault has an effect that the machine allows to its command. -/
theorem allows_of_outcome {effect : Effect} (h : (i.outcome s).1 = .ok effect) :
    i.machine.Allows s.action effect := by
  have hends := i.endsAs_execution s
  unfold outcome at h
  generalize i.execution s = r at h hends
  cases hends with
  | effect hallows =>
    cases h
    simpa using hallows
  | fault => cases h

/-- Notes are shown by the level of detail alone. -/
theorem noteAll_congr {j : Interpreter} (h : i.detail = j.detail) (notes : List Note) :
    i.noteAll notes = j.noteAll notes := by
  induction notes with
  | nil => rfl
  | cons n ns ih => rw [noteAll, noteAll, ih, note, note, h]

theorem outputAll_toList (requests : List Request) (output : Option String) (i : Interpreter) :
    i.outputAll requests output.toList = match output with
      | some text => i.output requests text
      | none => pure i := by
  cases output with
  | none => rfl
  | some text =>
    change Logged.mk (i.output requests text).value ((i.output requests text).events ++ []) = _
    rw [List.append_nil]

/-- Performing a statement is reporting its fault or putting its effect into force, after
the notes. -/
theorem perform_eq (requests : List Request) (s : Statement) (i : Interpreter) :
    i.perform requests s = (do
      let drawn := { i with generator := (i.outcome s).2.generator }
      drawn.noteAll (i.outcome s).2.notes
      match (i.outcome s).1 with
      | .error f => drawn.fail requests s.number f
      | .ok effect => drawn.enact requests s.number effect) := by
  have hends := i.endsAs_execution s
  unfold perform outcome
  generalize i.execution s = r at hends
  cases hends with
  | fault f => rfl
  | @effect effect hallows generator notes =>
    have hline : effect.output.toList.head? = effect.output := by cases effect.output <;> rfl
    simp only [Except.map, List.nil_append, outputAll_toList, hline]
    have hnotes := noteAll_congr (i := { i with machine := effect.machine, generator := generator })
      (j := { i with generator := generator }) rfl notes
    rw [hnotes]
    unfold enact
    cases effect.output <;> rfl

end Interpreter

end LineBasic
