import LineBasic.Proofs.Effects
import LineBasic.Proofs.Executions
import LineBasic.Proofs.History
import LineBasic.Run

/-!
The notes that an interpreter leaves. `Note.IsListed` lists them with their
levels of detail, and whatever is done to an interpreter, every note that is
seen meanwhile is a listed one: an execution leaves no other
(`Command.notesListed_execute`), and neither does an operation or a run
(`Interpreter.isListed_operate`, `Interpreter.isListed_run`).
-/

namespace LineBasic

inductive Note.IsListed : Note → Prop
  | start (size : Nat) : IsListed ⟨1, "run: " ++ toString size ++ " statements"⟩
  | halt (reason : HaltReason) : IsListed ⟨1, "halt: " ++ reason.words⟩
  | fault (line : Nat) (f : Fault) :
      IsListed ⟨1, "error at line " ++ toString line ++ ": " ++ f.kind ++ ": " ++ f.message⟩
  | statement (line : Nat) (code : String) : IsListed ⟨2, toString line ++ " " ++ code⟩
  | answer (name text : String) : IsListed ⟨2, "input " ++ name ++ " = " ++ Text.quote text⟩
  | jump (line target : Nat) :
      IsListed ⟨3, "jump " ++ toString line ++ " -> " ++ toString target⟩
  | condition (condition expanded : String) :
      IsListed ⟨3, "condition " ++ Text.quote condition ++ " -> " ++ Text.quote expanded⟩
  | decision (b : Bool) : IsListed ⟨3, "condition result " ++ truthWord b⟩

theorem Note.IsListed.level_le {n : Note} (h : n.IsListed) : n.level ≤ 3 := by
  cases h <;> simp

namespace Exec

variable {α β : Type}

/-- Whether a computation leaves no note but the listed ones. -/
def NotesListed (x : Exec α) : Prop :=
  ∀ t, (∀ n ∈ t.notes, n.IsListed) → ∀ n ∈ (x.run.run t).2.notes, n.IsListed

theorem notesListed_pure (a : α) : NotesListed (pure a) := fun _ h => h

theorem notesListed_throw (f : Fault) : NotesListed (throw f : Exec α) := fun _ h => h

theorem notesListed_eval (x : Environment → Eval Fault α) : NotesListed (eval x) := fun _ h => h

theorem notesListed_ofExcept (r : Except Fault α) : NotesListed (ofExcept r) := fun _ h => h

theorem notesListed_note {level : Nat} {text : String} (h : (Note.mk level text).IsListed) :
    NotesListed (note level text) := by
  intro t ht n hn
  rcases List.mem_append.mp hn with hn | hn
  · exact ht n hn
  · rw [List.mem_singleton.mp hn]
    exact h

theorem notesListed_bind {x : Exec α} {f : α → Exec β} (hx : NotesListed x)
    (hf : ∀ a, NotesListed (f a)) : NotesListed (x >>= f) := by
  intro t ht
  have hleft := hx t ht
  rw [run_run_bind]
  cases hrun : x.run.run t with
  | mk r t' =>
    rw [hrun] at hleft
    cases r with
    | ok a => exact hf a t' hleft
    | error f => exact hleft

theorem notesListed_decides (condition : List Char) : NotesListed (decides condition) :=
  notesListed_bind (fun _ h => h) fun _ =>
    notesListed_bind (notesListed_note (.condition _ _)) fun _ =>
      notesListed_bind (notesListed_eval _) fun _ =>
        notesListed_bind (notesListed_note (.decision _)) fun _ => notesListed_pure _

theorem stepwise_notesListed : Stepwise @NotesListed where
  pure := notesListed_pure
  throw := notesListed_throw
  ofExcept := notesListed_ofExcept
  machine _ h := h
  change _ _ h := h
  output _ _ h := h
  evaluate _ := notesListed_eval _
  stepValue _ := notesListed_eval _
  line _ := notesListed_eval _
  statement _ _ := notesListed_note (.statement _ _)
  decides := notesListed_decides
  bind := notesListed_bind

end Exec

theorem Command.notesListed_execute (line : Nat) (c : Command) :
    Exec.NotesListed (c.execute line) :=
  Exec.stepwise_notesListed.execute line c

def Event.IsListed : Event → Prop
  | .trace level text => (Note.mk level text).IsListed
  | _ => True

namespace Logged

variable {α β : Type}

def IsListed (x : Logged α) : Prop := ∀ e ∈ x.events, e.IsListed

theorem isListed_pure (a : α) : (pure a : Logged α).IsListed := nofun

theorem isListed_bind {x : Logged α} {f : α → Logged β} (hx : x.IsListed)
    (hf : (f x.value).IsListed) : (x >>= f).IsListed := by
  intro e he
  rcases List.mem_append.mp he with he | he
  · exact hx e he
  · exact hf e he

theorem isListed_event {e : Event} (h : e.IsListed) : (event e).IsListed := by
  intro e' he
  rwa [List.mem_singleton.mp he]

theorem isListed_lines (lines : List String) :
    (⟨(), lines.map .output⟩ : Logged Unit).IsListed := by
  intro e he
  obtain ⟨line, _, rfl⟩ := List.mem_map.mp he
  trivial

end Logged

namespace Interpreter

section Listed

variable (requests : List Request) (i : Interpreter)

theorem isListed_note {n : Note} (h : n.IsListed) : (i.note n).IsListed := by
  unfold note
  split
  · intro e he
    rw [List.mem_singleton.mp he]
    exact h
  · exact Logged.isListed_pure _

theorem isListed_noteAll {ns : List Note} (h : ∀ n ∈ ns, n.IsListed) :
    (i.noteAll ns).IsListed := by
  induction ns with
  | nil => exact Logged.isListed_pure _
  | cons n ns ih =>
    obtain ⟨hn, hns⟩ := List.forall_mem_cons.mp h
    exact Logged.isListed_bind (i.isListed_note hn) (ih hns)

theorem isListed_halt (reason : HaltReason) : (i.halt reason).IsListed :=
  Logged.isListed_bind (i.isListed_note (.halt reason)) (Logged.isListed_pure _)

theorem isListed_stop : i.stop.IsListed := by
  unfold stop
  simp only
  split
  · exact isListed_halt _ _
  · exact Logged.isListed_pure _

theorem isListed_handle : (i.handle requests).IsListed := by
  induction requests generalizing i with
  | nil => exact Logged.isListed_pure _
  | cons r rest ih =>
    cases r with
    | «break» => exact ih i.requestBreak
    | stop => exact Logged.isListed_bind i.isListed_stop (ih _)

theorem isListed_output (line : String) : (i.output requests line).IsListed :=
  Logged.isListed_bind (Logged.isListed_lines [line]) (isListed_handle requests i)

theorem isListed_fail (line : Nat) (f : Fault) : (i.fail requests line f).IsListed :=
  Logged.isListed_bind (isListed_note _ (.fault line f))
    (Logged.isListed_bind (isListed_output _ _ _) (isListed_halt _ _))

theorem isListed_moveTo (index : Nat) : (i.moveTo index).IsListed := by
  unfold moveTo
  simp only
  split
  · exact isListed_halt _ _
  · exact Logged.isListed_pure _

theorem isListed_follow (line : Nat) (t : Transfer) : (i.follow requests line t).IsListed := by
  cases t with
  | advance => exact isListed_moveTo _ _
  | moveTo index => exact isListed_moveTo _ _
  | finish => exact isListed_halt _ _
  | await name prompt => exact Logged.isListed_pure _
  | jump target =>
    cases target with
    | line number =>
      simp only [follow]
      cases i.program.indexOf? number with
      | none => exact isListed_fail _ _ _ _
      | some index =>
        exact Logged.isListed_bind (isListed_note _ (.jump line number)) (isListed_moveTo _ index)
    | oversized digits =>
      exact Logged.isListed_bind (Logged.isListed_event trivial) (Logged.isListed_pure _)

theorem isListed_enact (line : Nat) (effect : Effect) :
    (i.enact requests line effect).IsListed := by
  unfold enact
  cases effect.output with
  | none => exact isListed_follow _ _ _ _
  | some text => exact Logged.isListed_bind (isListed_output _ _ _) (isListed_follow _ _ _ _)

/-- Executing a statement leaves the note that it is begun, and those of the
conditions and clauses in it. -/
theorem isListed_outcome (s : Statement) : ∀ n ∈ (i.outcome s).2.notes, n.IsListed :=
  Exec.notesListed_bind (Exec.notesListed_note (.statement _ _))
    (fun _ => Command.notesListed_execute _ _)
    { machine := i.machine, generator := i.generator } nofun

theorem isListed_perform (s : Statement) : (i.perform requests s).IsListed := by
  have hnotes := i.isListed_outcome s
  rw [perform_eq]
  generalize i.outcome s = out at hnotes
  obtain ⟨result, e⟩ := out
  refine Logged.isListed_bind (isListed_noteAll _ hnotes) ?_
  cases result with
  | error f => exact isListed_fail _ _ _ _
  | ok effect => exact isListed_enact _ _ _ _

theorem isListed_step : (i.step requests).IsListed := by
  unfold step
  split
  · exact Logged.isListed_pure _
  · split
    · exact isListed_halt _ _
    · split
      · exact Logged.isListed_bind (isListed_output _ _ _) (isListed_halt _ _)
      · split
        · exact isListed_halt _ _
        · exact isListed_perform _ _ _

theorem isListed_start : i.start.IsListed :=
  Logged.isListed_bind (isListed_note _ (.start _)) (Logged.isListed_pure _)

theorem isListed_resume (answer : String) : (i.resume answer).IsListed := by
  unfold resume
  split
  · simp only
    split
    · exact Logged.isListed_pure _
    · exact Logged.isListed_bind (isListed_note _ (.answer _ _))
        (Logged.isListed_bind (isListed_moveTo _ _) (Logged.isListed_pure _))
  · exact Logged.isListed_pure _

theorem isListed_operate (o : Operation) : (i.operate o).IsListed := by
  cases o with
  | load program => exact Logged.isListed_pure _
  | start program => exact Logged.isListed_bind (isListed_start _) (Logged.isListed_pure _)
  | step requests => exact Logged.isListed_bind (isListed_step _ _) (Logged.isListed_pure _)
  | resume answer => exact isListed_resume _ _
  | requestBreak => exact Logged.isListed_pure _
  | stop => exact Logged.isListed_bind (isListed_stop _) (Logged.isListed_pure _)

end Listed

end Interpreter

namespace Run

variable (script : Script) (r : Run)

theorem isListed_answer (text : String) : (r.answer text).IsListed := by
  refine Logged.isListed_bind (Interpreter.isListed_resume _ _) ?_
  obtain ⟨_ | _ | f, i⟩ := (r.interpreter.resume text).value <;> exact Logged.isListed_pure _

theorem isListed_ask (exhausted : Exhausted) : (r.ask exhausted).IsListed := by
  refine Logged.isListed_bind (Logged.isListed_event trivial) ?_
  split
  · exact isListed_answer _ _
  · split
    · exact isListed_answer _ _
    · exact Logged.isListed_bind (Interpreter.isListed_stop _)
        (Logged.isListed_bind (Logged.isListed_lines _) (Logged.isListed_pure _))

theorem isListed_advance : (r.advance script).IsListed := by
  refine Logged.isListed_bind (Interpreter.isListed_step _ _) ?_
  simp only
  split
  · exact Logged.isListed_pure _
  · split <;> exact Logged.isListed_pure _

theorem isListed_round : (r.round script).IsListed := by
  refine Logged.isListed_bind (isListed_advance _ _) ?_
  split
  · exact isListed_ask _ _
  · exact Logged.isListed_pure _

theorem isListed_drive (fuel : Nat) {log : Array Event} (hlog : ∀ e ∈ log.toList, e.IsListed) :
    ∀ e ∈ (drive script fuel r log).2.toList, e.IsListed := by
  induction fuel generalizing r log with
  | zero => exact hlog
  | succ fuel ih =>
    rw [drive]
    split
    · exact hlog
    · refine ih _ fun e he => ?_
      rw [Array.toList_appendList] at he
      rcases List.mem_append.mp he with he | he
      · exact hlog e he
      · exact isListed_round script r e he

end Run

theorem Interpreter.isListed_run (i : Interpreter) (fuel : Nat) (script : Script)
    (program : Program) : (i.run fuel script program).IsListed :=
  Run.isListed_drive script _ fuel
    (Logged.isListed_bind (i.load program).isListed_start (Logged.isListed_pure _))

end LineBasic
