import LineBasic.Machine

/-!
Executions part by part: what each part does to an execution that has come to it, and how
a sequence goes on (`run_run_bind`). A property of executions that all parts have, and that
goes on along a sequence, is one of every command (`Exec.Stepwise.execute`).
-/

namespace LineBasic

section Computations

variable {ε ε' σ α β : Type}

/-- A computation that fails leaves the state that it failed in. -/
theorem run_run_bind (x : ExceptT ε (StateM σ) α) (f : α → ExceptT ε (StateM σ) β) (s : σ) :
    (x >>= f).run.run s = match x.run.run s with
      | (.ok a, s) => (f a).run.run s
      | (.error e, s) => (.error e, s) := by
  cases hx : x.run.run s with
  | mk r s' =>
    rw [ExceptT.run_bind, StateT.run_bind, hx]
    cases r <;> rfl

theorem run_run_adapt (f : ε → ε') (x : ExceptT ε (StateM σ) α) (s : σ) :
    (x.adapt f).run.run s = ((x.run.run s).1.mapError f, (x.run.run s).2) :=
  rfl

/-- What handles an error goes on in the state that the error was met in. -/
theorem run_run_tryCatch (x : ExceptT ε (StateM σ) α) (f : ε → ExceptT ε (StateM σ) α) (s : σ) :
    (tryCatch x f).run.run s = match x.run.run s with
      | (.ok a, s) => (.ok a, s)
      | (.error e, s) => (f e).run.run s := by
  rw [ExceptT.run_tryCatch, StateT.run_bind]
  cases x.run.run s with
  | mk r s' => cases r <;> rfl

def Yields (x : ExceptT ε (StateM σ) α) (a : α) : Prop :=
  ∃ before after, x.run.run before = (.ok a, after)

theorem yields_pure {a b : α} (h : Yields (pure a : ExceptT ε (StateM σ) α) b) : b = a := by
  obtain ⟨_, _, hrun⟩ := h
  cases hrun
  rfl

theorem yields_bind {x : ExceptT ε (StateM σ) α} {f : α → ExceptT ε (StateM σ) β} {b : β}
    (h : Yields (x >>= f) b) : ∃ a, Yields x a ∧ Yields (f a) b := by
  obtain ⟨before, after, hrun⟩ := h
  rw [run_run_bind] at hrun
  split at hrun
  · next a t hx => exact ⟨a, ⟨before, t, hx⟩, ⟨t, after, hrun⟩⟩
  · cases hrun

theorem not_yields_throw {e : ε} {a : α} : ¬ Yields (throw e : ExceptT ε (StateM σ) α) a := by
  rintro ⟨_, _, hrun⟩
  cases hrun

theorem yields_adapt {f : ε → ε'} {x : ExceptT ε (StateM σ) α} {a : α}
    (h : Yields (x.adapt f) a) : Yields x a := by
  obtain ⟨before, after, hrun⟩ := h
  refine ⟨before, after, ?_⟩
  rw [run_run_adapt] at hrun
  cases hx : x.run.run before with
  | mk r s' =>
    rw [hx] at hrun
    cases r with
    | ok b =>
      cases hrun
      rfl
    | error e => cases hrun

theorem yields_mk_pure {r : Except ε α} {a : α}
    (h : Yields (ExceptT.mk (pure r) : ExceptT ε (StateM σ) α) a) : r = .ok a := by
  obtain ⟨_, _, hrun⟩ := h
  exact congrArg Prod.fst hrun

end Computations

namespace Exec

variable {α : Type} (e : Execution)

theorem run_note (level : Nat) (text : String) :
    (note level text).run.run e = (.ok (), { e with notes := e.notes ++ [⟨level, text⟩] }) := rfl

theorem run_machine : machine.run.run e = (.ok e.machine, e) := rfl

theorem run_change (f : Machine → Machine) :
    (change f).run.run e = (.ok (), { e with machine := f e.machine }) := rfl

theorem run_eval (x : Environment → Eval Fault α) :
    (eval x).run.run e = (((x e.machine.environment).run.run e.generator).1,
      { e with generator := ((x e.machine.environment).run.run e.generator).2 }) := rfl

theorem run_ofExcept (r : Except Fault α) : (ofExcept r).run.run e = (r, e) := rfl

theorem run_pure (a : α) : (pure a : Exec α).run.run e = (.ok a, e) := rfl

/-- Binding a variable is all or nothing. -/
theorem run_assign (name : String) (v : Value) :
    (assign name v).run.run e = match e.machine.environment.set name v with
      | .ok environment => (.ok (), { e with machine := { e.machine with environment } })
      | .error f => (.error f, e) := by
  simp only [assign, run_run_bind, run_machine, run_ofExcept]
  cases e.machine.environment.set name v <;> rfl

/-- Deciding a condition is evaluating it and leaving notes. -/
theorem run_decides (condition : List Char) :
    ∃ notes, (decides condition).run.run e =
      (((Condition.holds e.machine.environment condition).run.run e.generator).1, { e with
        generator := ((Condition.holds e.machine.environment condition).run.run e.generator).2
        notes := notes }) := by
  simp only [decides, run_run_bind, run_machine, run_note, run_eval]
  cases ((Condition.holds e.machine.environment condition).run.run e.generator).1 with
  | ok b => exact ⟨_, rfl⟩
  | error f => exact ⟨_, rfl⟩

/-- Executing a branch is deciding its condition and, if it holds, executing its body. -/
theorem run_branch (line : Nat) (condition : List Char) (clause : Option String)
    (body : Command) :
    ∃ notes, ((Command.branch condition clause body).execute line).run.run e =
      match (Condition.holds e.machine.environment condition).run.run e.generator with
      | (.ok true, generator) => (body.execute line).run.run { e with generator, notes }
      | (.ok false, generator) => (.ok .advance, { e with generator, notes })
      | (.error f, generator) => (.error f, { e with generator, notes }) := by
  obtain ⟨notes, hdecides⟩ := run_decides e condition
  rw [Command.execute, run_run_bind, hdecides]
  generalize (Condition.holds e.machine.environment condition).run.run e.generator = decided
  obtain ⟨result, generator⟩ := decided
  cases result with
  | error f => exact ⟨notes, rfl⟩
  | ok holds =>
    cases holds with
    | false => exact ⟨notes, rfl⟩
    | true =>
      -- A clause that is not a bare line number leaves one more note.
      cases clause with
      | none => exact ⟨notes, rfl⟩
      | some code => exact ⟨notes ++ [⟨2, toString line ++ " " ++ code⟩], rfl⟩

structure Stepwise (P : ∀ {α : Type}, Exec α → Prop) : Prop where
  pure {α : Type} (a : α) : P (pure a)
  throw {α : Type} (f : Fault) : P (throw f : Exec α)
  ofExcept {α : Type} (r : Except Fault α) : P (ofExcept r)
  machine : P machine
  change (f : Machine → Machine) : P (change f)
  output (line : String) : P (output line)
  evaluate (cs : List Char) : P (eval fun env => evaluateTrimmed env cs)
  stepValue (header : LoopHeader) : P (eval header.stepValue)
  line (items : List PrintItem) : P (eval fun env => PrintItem.line env false items)
  statement (line : Nat) (code : String) : P (noteStatement line code)
  decides (condition : List Char) : P (decides condition)
  bind {α β : Type} {x : Exec α} {f : α → Exec β} (hx : P x) (hf : ∀ a, P (f a)) : P (x >>= f)

namespace Stepwise

variable {P : ∀ {α : Type}, Exec α → Prop} (h : Stepwise P)

include h

theorem assign (name : String) (v : Value) : P (assign name v) :=
  h.bind h.machine fun _ => h.bind (h.ofExcept _) fun _ => h.change _

theorem enter (header : LoopHeader) (start bound step : Value) :
    P (header.enter start bound step) := by
  unfold LoopHeader.enter
  split
  · split
    · exact h.throw _
    · exact h.bind (h.assign _ _) fun _ => h.bind (h.change _) fun _ => h.pure _
  · exact h.throw _

theorem nextRound (name : String) : P (nextRound name) := by
  refine h.bind h.machine fun m => ?_
  split
  · exact h.throw _
  · refine h.bind (h.ofExcept _) fun v => ?_
    split
    · exact h.throw _
    · refine h.bind (h.assign _ _) fun _ => ?_
      split
      · exact h.pure _
      · exact h.bind (h.change _) fun _ => h.pure _

/-- Executing a command has such a property, also inside the clauses of branches. -/
theorem execute (line : Nat) (c : Command) : P (c.execute line) := by
  induction c with
  | print items =>
    exact h.bind (h.line items) fun _ => h.bind (h.output _) fun _ => h.pure _
  | assign name value =>
    exact h.bind (h.evaluate value) fun _ => h.bind (h.assign _ _) fun _ => h.pure _
  | branch condition clause body ih =>
    refine h.bind (h.decides condition) fun holds => ?_
    split
    · cases clause with
      | none => exact ih
      | some code => exact h.bind (h.statement line code) fun _ => ih
    · exact h.pure _
  | loop header =>
    refine h.bind (h.evaluate header.start) fun start => ?_
    refine h.bind (h.evaluate header.bound) fun bound => ?_
    exact h.bind (h.stepValue header) fun step => h.enter header start bound step
  | next name => exact h.nextRound name
  | ret =>
    refine h.bind h.machine fun m => ?_
    split
    · exact h.throw _
    · exact h.bind (h.change _) fun _ => h.pure _
  | gosub target => exact h.bind (h.change _) fun _ => h.pure _
  | invalid fault => exact h.throw fault
  | input | goto | finish | remark => exact h.pure _

end Stepwise

end Exec

def Execution.unnoted (e : Execution) : Execution := { e with notes := [] }

theorem Execution.unnoted_eq_iff {e e' : Execution} :
    e.unnoted = e'.unnoted ↔ ∃ notes, e' = { e with notes := notes } := by
  constructor
  · intro h
    obtain ⟨hmachine, hgenerator, -, hlines⟩ := Execution.mk.inj h
    exact ⟨e'.notes, by rw [hmachine, hgenerator, hlines]⟩
  · rintro ⟨notes, rfl⟩
    rfl

namespace Exec

variable {α β : Type}

/-- Whether what has been noted before makes no difference to a part of an execution. -/
def IgnoresNotes (x : Exec α) : Prop :=
  ∀ e e' : Execution, e.unnoted = e'.unnoted →
    (x.run.run e).1 = (x.run.run e').1 ∧ (x.run.run e).2.unnoted = (x.run.run e').2.unnoted

theorem ignoresNotes_of_same {x : Exec α}
    (h : ∀ e notes, (x.run.run e).1 = (x.run.run { e with notes := notes }).1 ∧
      (x.run.run e).2.unnoted = (x.run.run { e with notes := notes }).2.unnoted) :
    IgnoresNotes x := by
  intro e e' heq
  obtain ⟨notes, rfl⟩ := Execution.unnoted_eq_iff.mp heq
  exact h e notes

theorem ignoresNotes_bind {x : Exec α} {f : α → Exec β} (hx : IgnoresNotes x)
    (hf : ∀ a, IgnoresNotes (f a)) : IgnoresNotes (x >>= f) := by
  intro e e' h
  obtain ⟨hresult, hrest⟩ := hx e e' h
  rw [run_run_bind, run_run_bind]
  cases hrun : x.run.run e with
  | mk r e₁ =>
    cases hrun' : x.run.run e' with
    | mk r' e₁' =>
      rw [hrun, hrun'] at hresult hrest
      obtain rfl : r = r' := hresult
      cases r with
      | ok a => exact hf a e₁ e₁' hrest
      | error f => exact ⟨rfl, hrest⟩

theorem ignoresNotes_eval (x : Environment → Eval Fault α) : IgnoresNotes (eval x) :=
  ignoresNotes_of_same fun _ _ => ⟨rfl, rfl⟩

theorem ignoresNotes_decides (condition : List Char) : IgnoresNotes (decides condition) := by
  refine ignoresNotes_of_same fun e notes => ?_
  obtain ⟨noted, hrun⟩ := run_decides e condition
  obtain ⟨noted', hrun'⟩ := run_decides { e with notes := notes } condition
  rw [hrun, hrun']
  exact ⟨rfl, rfl⟩

theorem stepwise_ignoresNotes : Stepwise @IgnoresNotes where
  pure _ := ignoresNotes_of_same fun _ _ => ⟨rfl, rfl⟩
  throw _ := ignoresNotes_of_same fun _ _ => ⟨rfl, rfl⟩
  ofExcept _ := ignoresNotes_of_same fun _ _ => ⟨rfl, rfl⟩
  machine := ignoresNotes_of_same fun _ _ => ⟨rfl, rfl⟩
  change _ := ignoresNotes_of_same fun _ _ => ⟨rfl, rfl⟩
  output _ := ignoresNotes_of_same fun _ _ => ⟨rfl, rfl⟩
  evaluate _ := ignoresNotes_eval _
  stepValue _ := ignoresNotes_eval _
  line _ := ignoresNotes_eval _
  statement _ _ := ignoresNotes_of_same fun _ _ => ⟨rfl, rfl⟩
  decides := ignoresNotes_decides
  bind := ignoresNotes_bind

end Exec

end LineBasic
