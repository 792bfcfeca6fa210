import LineBasic.Proofs.Executions
import LineBasic.Proofs.RandomNumbers

/-!
What an execution does to the random numbers. Whatever is computed, and whether
it ends with a fault or not, the generator is afterwards the one before it with
some numbers drawn: nothing ever seeds it anew or puts a number back.

`OnlyDraws` says so of a computation, and `Interpreter.exists_skip_outcome` of
the execution of a statement.
-/

namespace LineBasic

section Computations

variable {ε ε' σ α β : Type} {generator : σ → Generator}

/-- Whether a computation does nothing to the generator within its state but to
draw numbers, also if it fails. -/
def OnlyDraws (generator : σ → Generator) (x : ExceptT ε (StateM σ) α) : Prop :=
  ∀ s, ∃ n, generator (x.run.run s).2 = (generator s).skip n

theorem onlyDraws_of_same {x : ExceptT ε (StateM σ) α}
    (h : ∀ s, generator (x.run.run s).2 = generator s) : OnlyDraws generator x :=
  fun s => ⟨0, h s⟩

theorem onlyDraws_pure (a : α) : OnlyDraws generator (pure a : ExceptT ε (StateM σ) α) :=
  onlyDraws_of_same fun _ => rfl

theorem onlyDraws_throw (e : ε) : OnlyDraws generator (throw e : ExceptT ε (StateM σ) α) :=
  onlyDraws_of_same fun _ => rfl

theorem onlyDraws_mk_pure (r : Except ε α) :
    OnlyDraws generator (ExceptT.mk (pure r) : ExceptT ε (StateM σ) α) :=
  onlyDraws_of_same fun _ => rfl

theorem onlyDraws_bind {x : ExceptT ε (StateM σ) α} {f : α → ExceptT ε (StateM σ) β}
    (hx : OnlyDraws generator x) (hf : ∀ a, OnlyDraws generator (f a)) :
    OnlyDraws generator (x >>= f) := by
  intro s
  obtain ⟨n, hn⟩ := hx s
  rw [run_run_bind]
  cases hrun : x.run.run s with
  | mk r s' =>
    rw [hrun] at hn
    cases r with
    | ok a =>
      obtain ⟨k, hk⟩ := hf a s'
      exact ⟨n + k, by rw [Generator.skip_add, ← hn]; exact hk⟩
    | error e => exact ⟨n, hn⟩

theorem onlyDraws_adapt {f : ε → ε'} {x : ExceptT ε (StateM σ) α} (hx : OnlyDraws generator x) :
    OnlyDraws generator (x.adapt f) :=
  fun s => hx s

theorem onlyDraws_tryCatch {x : ExceptT ε (StateM σ) α} {f : ε → ExceptT ε (StateM σ) α}
    (hx : OnlyDraws generator x) (hf : ∀ e, OnlyDraws generator (f e)) :
    OnlyDraws generator (tryCatch x f) := by
  intro s
  obtain ⟨n, hn⟩ := hx s
  rw [run_run_tryCatch]
  cases hrun : x.run.run s with
  | mk r s' =>
    rw [hrun] at hn
    cases r with
    | ok a => exact ⟨n, hn⟩
    | error e =>
      obtain ⟨k, hk⟩ := hf e s'
      exact ⟨n + k, by rw [Generator.skip_add, ← hn]; exact hk⟩

end Computations

section Evaluation

variable {ε : Type}

theorem Eval.onlyDraws_draw : OnlyDraws id (Eval.draw : Eval ε Value) :=
  fun _ => ⟨1, rfl⟩

/-- Whichever way a tree goes, it only draws. -/
theorem Expr.onlyDraws_eval (env : Environment) (e : Expr) : OnlyDraws id (e.eval env) := by
  intro g
  obtain ⟨n, -, hg⟩ := e.drawsBy_eval env g
  exact ⟨n, hg⟩

variable (env : Environment)

theorem onlyDraws_evaluateTrimmed (cs : List Char) : OnlyDraws id (evaluateTrimmed env cs) := by
  unfold evaluateTrimmed
  split
  · exact onlyDraws_pure _
  · split
    · exact onlyDraws_pure _
    · split
      · exact onlyDraws_adapt (Expr.onlyDraws_eval env _)
      · exact onlyDraws_throw _

theorem Condition.onlyDraws_holds (cs : List Char) : OnlyDraws id (holds env cs) := by
  unfold holds
  simp only
  split
  · exact onlyDraws_throw _
  · exact onlyDraws_bind (onlyDraws_adapt (Expr.onlyDraws_eval _ _)) fun v => onlyDraws_pure _

theorem PrintItem.onlyDraws_evaluate (cs : List Char) : OnlyDraws id (evaluate env cs) := by
  unfold evaluate
  split
  · exact onlyDraws_pure _
  · split
    · split
      · exact Eval.onlyDraws_draw
      · exact onlyDraws_mk_pure _
    · refine onlyDraws_tryCatch (onlyDraws_evaluateTrimmed env cs) fun f => ?_
      split
      · exact onlyDraws_pure _
      · exact onlyDraws_throw _

theorem PrintItem.onlyDraws_line (afterComma : Bool) (items : List PrintItem) :
    OnlyDraws id (line env afterComma items) := by
  induction items generalizing afterComma with
  | nil => exact onlyDraws_pure _
  | cons item items ih =>
    refine onlyDraws_bind (onlyDraws_evaluate env item.text) fun v => ?_
    exact onlyDraws_bind (ih _) fun rest => onlyDraws_pure _

theorem LoopHeader.onlyDraws_stepValue (header : LoopHeader) :
    OnlyDraws id (header.stepValue env) := by
  unfold stepValue
  split
  · exact onlyDraws_evaluateTrimmed env _
  · exact onlyDraws_pure _

end Evaluation

section Execution

namespace Exec

theorem onlyDraws_note (level : Nat) (text : String) :
    OnlyDraws Execution.generator (note level text) :=
  onlyDraws_of_same fun _ => rfl

theorem onlyDraws_eval {α : Type} {x : Environment → Eval Fault α}
    (hx : ∀ env, OnlyDraws id (x env)) : OnlyDraws Execution.generator (eval x) :=
  fun e => hx e.machine.environment e.generator

theorem onlyDraws_decides (condition : List Char) :
    OnlyDraws Execution.generator (decides condition) := by
  refine onlyDraws_bind (onlyDraws_of_same fun _ => rfl) fun m => ?_
  refine onlyDraws_bind (onlyDraws_note _ _) fun _ => ?_
  refine onlyDraws_bind (onlyDraws_eval fun env => Condition.onlyDraws_holds env _) fun b => ?_
  exact onlyDraws_bind (onlyDraws_note _ _) fun _ => onlyDraws_pure _

theorem stepwise_onlyDraws : Stepwise (OnlyDraws Execution.generator) where
  pure := onlyDraws_pure
  throw := onlyDraws_throw
  ofExcept := onlyDraws_mk_pure
  machine := onlyDraws_of_same fun _ => rfl
  change _ := onlyDraws_of_same fun _ => rfl
  output _ := onlyDraws_of_same fun _ => rfl
  evaluate cs := onlyDraws_eval fun env => onlyDraws_evaluateTrimmed env cs
  stepValue header := onlyDraws_eval fun env => header.onlyDraws_stepValue env
  line items := onlyDraws_eval fun env => PrintItem.onlyDraws_line env false items
  statement _ _ := onlyDraws_note _ _
  decides := onlyDraws_decides
  bind := onlyDraws_bind

end Exec

/-- Executing a command only draws, also inside the clauses of branches. -/
theorem Command.onlyDraws_execute (line : Nat) (c : Command) :
    OnlyDraws Execution.generator (c.execute line) :=
  Exec.stepwise_onlyDraws.execute line c

end Execution

/-- Executing a statement only draws random numbers. -/
theorem Interpreter.exists_skip_outcome (i : Interpreter) (s : Statement) :
    ∃ n, (i.outcome s).2.generator = i.generator.skip n := by
  have hdraws : OnlyDraws Execution.generator (do
      Exec.noteStatement s.number (Text.trimString s.code)
      (Command.ofText (Text.trimString s.code)).execute s.number) :=
    onlyDraws_bind (Exec.onlyDraws_note _ _) fun _ => Command.onlyDraws_execute s.number _
  exact hdraws { machine := i.machine, generator := i.generator }

end LineBasic
