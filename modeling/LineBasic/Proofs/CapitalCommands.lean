import LineBasic.Proofs.CapitalConditions
import LineBasic.Proofs.Clauses

/-!
Commands in capitals. A command does the same in any case, unless the case of a
letter is exposed: by an argument of PRINT that is printed as its literal text, or by
a variable with a quote in its text that is put into a condition.
-/

namespace LineBasic

open Text

inductive Exposure where
  | literalText
  | quoteTakenIn
deriving DecidableEq, Repr

/-- What exposes the case of letters while a command is executed. -/
def Command.exposures (env : Environment) : Command → Generator → List Exposure
  | .print items, g => if PrintItem.anyLiteral env items g then [.literalText] else []
  | .branch condition _ body, g =>
    (if Condition.takesQuotes env condition then [.quoteTakenIn] else []) ++
      match (Condition.holds env condition).run.run g with
      | (.ok true, g) => body.exposures env g
      | _ => []
  | _, _ => []

section Executions

variable {α : Type} {k : Execution}

/-- What takes no account of notes does the same again. -/
theorem Exec.IgnoresNotes.runsAlike {x : Exec α} (h : IgnoresNotes x) :
    RunsAlike Execution.unnoted k x x := by
  intro s t hs ht
  obtain ⟨hresult, hview⟩ := h s t (hs.trans ht.symm)
  exact ⟨congrArg (Except.mapError Fault.caseless) hresult, hview⟩

theorem Exec.runsAlike_eval {x y : Environment → Eval Fault α}
    (h : RunsAlike id k.generator (x k.machine.environment) (y k.machine.environment)) :
    RunsAlike Execution.unnoted k (eval x) (eval y) := by
  intro s t hs ht
  obtain ⟨notes, rfl⟩ := Execution.unnoted_eq_iff.mp (hs.trans ht.symm)
  subst hs
  obtain ⟨hresult, hgenerator⟩ := h s.generator s.generator rfl rfl
  rw [run_eval, run_eval]
  exact ⟨hresult, congrArg (fun g => { s.unnoted with generator := g }) hgenerator⟩

theorem Exec.exists_of_run_eval {x : Environment → Eval Fault α} {a : α} {s s' : Execution}
    (h : (eval x).run.run s = (.ok a, s')) :
    ∃ g, s' = { s with generator := g } ∧
      (x s.machine.environment).run.run s.generator = (.ok a, g) := by
  rw [run_eval] at h
  obtain ⟨hresult, hrest⟩ := Prod.mk.inj h
  exact ⟨_, hrest.symm, Prod.ext hresult rfl⟩

/-- Notes do not count. -/
theorem Exec.runsAlike_note (level : Nat) (text text' : String) :
    RunsAlike Execution.unnoted k (note level text) (note level text') :=
  fun _ _ hs ht => ⟨rfl, hs.trans ht.symm⟩

theorem Exec.decides_of_capitals {cs ds : List Char} (h : capitals false cs = capitals false ds)
    (hquotes : Condition.takesQuotes k.machine.environment cs = false) :
    RunsAlike Execution.unnoted k (decides cs) (decides ds) := by
  intro s t hs ht
  obtain ⟨notes, rfl⟩ := Execution.unnoted_eq_iff.mp (hs.trans ht.symm)
  subst hs
  obtain ⟨noted, hrun⟩ := run_decides s cs
  obtain ⟨noted', hrun'⟩ := run_decides { s with notes := notes } ds
  obtain ⟨hresult, hgenerator⟩ :=
    Condition.holds_of_capitals h hquotes s.generator s.generator rfl rfl
  rw [hrun, hrun']
  exact ⟨hresult, congrArg (fun g => { s.unnoted with generator := g }) hgenerator⟩

theorem Exec.exists_of_run_decides {condition : List Char} {holds : Bool} {s s' : Execution}
    (h : (decides condition).run.run s = (.ok holds, s')) :
    ∃ g notes, s' = { s with generator := g, notes := notes } ∧
      (Condition.holds s.machine.environment condition).run.run s.generator = (.ok holds, g) := by
  obtain ⟨notes, hrun⟩ := run_decides s condition
  obtain ⟨hresult, hrest⟩ := Prod.mk.inj (hrun.symm.trans h)
  exact ⟨_, notes, hrest.symm, Prod.ext hresult rfl⟩

/-- Faults that are the same in capitals tell the same in any case. -/
theorem Fault.caseless_inCapitals (quoted : Bool) (f : Fault) :
    (f.inCapitals quoted).caseless = f.caseless := by
  have htext (s : String) : Text.caseless (String.ofList (capitals quoted s.toList)) =
      Text.caseless s := by
    rw [Text.caseless, Text.caseless, String.toList_ofList, map_capitals caseBlind_toUpper]
  cases f with
  | invalidName name =>
    refine Prod.ext rfl ?_
    change Text.caseless (_ ++ String.ofList (capitals quoted name.toList)) =
      Text.caseless (_ ++ name)
    rw [caseless_append, htext, caseless_append]
  | malformedStatement keyword text =>
    refine Prod.ext rfl ?_
    change Text.caseless (_ ++ _ ++ _ ++ String.ofList (capitals quoted text.toList)) =
      Text.caseless (_ ++ _ ++ _ ++ text)
    simp only [caseless_append, htext]
  | unknownCommand word =>
    refine Prod.ext rfl ?_
    change Text.caseless (_ ++ String.ofList (capitals quoted word.toList) ++ _ ++ _ ++ _) =
      Text.caseless (_ ++ word ++ _ ++ _ ++ _)
    simp only [caseless_append, htext]
  | _ => rfl

theorem LoopHeader.enter_of_capitals {h h' : LoopHeader} (hname : h.name = h'.name)
    (htext : Text.caseless h.text = Text.caseless h'.text) (start bound step : Value) :
    RunsAlike Execution.unnoted k (h.enter start bound step) (h'.enter start bound step) := by
  have hbounds : (Fault.nonNumericBounds h.text).caseless =
      (Fault.nonNumericBounds h'.text).caseless := by
    refine Prod.ext rfl ?_
    change Text.caseless (_ ++ h.text) = Text.caseless (_ ++ h'.text)
    rw [caseless_append, htext, caseless_append]
  cases start with
  | text _ => exact runsAlike_throw hbounds
  | number x =>
    cases bound with
    | text _ => exact runsAlike_throw hbounds
    | number y =>
      cases step with
      | text _ => exact runsAlike_throw hbounds
      | number z =>
        have hsame : h.enter (.number x) (.number y) (.number z) =
            h'.enter (.number x) (.number y) (.number z) := by simp only [enter, hname]
        rw [← hsame]
        exact (Exec.stepwise_ignoresNotes.enter h _ _ _).runsAlike

theorem LoopHeader.stepValue_of_capitals {env : Environment} {h h' : LoopHeader}
    (hstep : h.step.map (capitals false) = h'.step.map (capitals false)) :
    RunsAlike id g (h.stepValue env) (h'.stepValue env) := by
  unfold stepValue
  cases hcs : h.step with
  | none =>
    rw [hcs] at hstep
    rw [Option.map_eq_none_iff.mp hstep.symm]
    exact runsAlike_pure _
  | some cs =>
    rw [hcs] at hstep
    obtain ⟨ds, hds, heq⟩ := Option.map_eq_some_iff.mp hstep.symm
    rw [hds]
    exact evaluateTrimmed_of_capitals heq.symm env g

theorem LoopHeader.execute_of_capitals {h h' : LoopHeader}
    (heq : h.inCapitals false = h'.inCapitals false) :
    RunsAlike Execution.unnoted k h.execute h'.execute := by
  obtain ⟨hname, hstart, hbound, hstep, htext⟩ := LoopHeader.mk.inj heq
  have htext' : Text.caseless h.text = Text.caseless h'.text := by
    simpa using caseless_of_capitals (String.ofList_injective htext)
  rw [← quotedAfter_congr hstart] at hbound hstep
  refine (Exec.runsAlike_eval (evaluateTrimmed_of_capitals hstart _ _)).bind ?_
  intro start s s' hs hrun
  obtain ⟨g, rfl, hvalue⟩ := Exec.exists_of_run_eval hrun
  rw [quotedAfter_of_evaluateTrimmed hvalue] at hbound hstep
  rw [← quotedAfter_congr hbound] at hstep
  refine (Exec.runsAlike_eval (evaluateTrimmed_of_capitals hbound _ _)).bind ?_
  intro bound t t' ht hrun
  obtain ⟨g', rfl, hvalue⟩ := Exec.exists_of_run_eval hrun
  rw [quotedAfter_of_evaluateTrimmed hvalue] at hstep
  refine (Exec.runsAlike_eval (stepValue_of_capitals hstep)).bind fun step _ _ _ _ => ?_
  exact enter_of_capitals hname htext' start bound step

end Executions

/-- A command that does not expose the case of a letter does the same in any case. -/
theorem Command.execute_of_capitals {c c' : Command} {k : Execution}
    (h : c.inCapitals false = c'.inCapitals false)
    (hexposed : c.exposures k.machine.environment k.generator = []) (line : Nat) :
    RunsAlike Execution.unnoted k (c.execute line) (c'.execute line) := by
  induction c generalizing c' k with
  | print items =>
    cases c' with
    | print items' =>
      have hitems := Command.print.inj h
      have hliteral : PrintItem.anyLiteral k.machine.environment items k.generator = false := by
        simpa [exposures] using hexposed
      refine (Exec.runsAlike_eval (PrintItem.line_of_capitals hitems false hliteral)).bind ?_
      intro text _ _ _ _
      have houtput := Exec.ignoresNotes_bind (Exec.stepwise_ignoresNotes.output text) fun _ =>
        Exec.stepwise_ignoresNotes.pure Transfer.advance
      exact houtput.runsAlike
    | _ => cases h
  | assign name value =>
    cases c' with
    | assign name' value' =>
      obtain ⟨rfl, hvalue⟩ := Command.assign.inj h
      refine (Exec.runsAlike_eval (evaluateTrimmed_of_capitals hvalue _ _)).bind ?_
      intro v _ _ _ _
      have hassign := Exec.ignoresNotes_bind (Exec.stepwise_ignoresNotes.assign name v) fun _ =>
        Exec.stepwise_ignoresNotes.pure Transfer.advance
      exact hassign.runsAlike
    | _ => cases h
  | input name prompt =>
    cases c' with
    | input name' prompt' =>
      obtain ⟨rfl, hprompt⟩ := Command.input.inj h
      rw [Bool.not_false, map_capital_true, map_capital_true, String.ofList_toList,
        String.ofList_toList] at hprompt
      subst hprompt
      exact (Exec.stepwise_ignoresNotes.execute line _).runsAlike
    | _ => cases h
  | branch condition clause body ih =>
    cases c' with
    | branch condition' clause' body' =>
      obtain ⟨hcondition, hclause, hbody⟩ := Command.branch.inj h
      obtain ⟨hquotes, hreached⟩ := List.append_eq_nil_iff.mp hexposed
      have hquotes : Condition.takesQuotes k.machine.environment condition = false := by
        simpa using hquotes
      refine (Exec.decides_of_capitals hcondition hquotes).bind fun holds s s' hs hrun => ?_
      obtain ⟨g, notes, rfl, hholds⟩ := Exec.exists_of_run_decides hrun
      subst hs
      cases holds with
      | false => exact runsAlike_pure _
      | true =>
        have hreached : body.exposures s.machine.environment g = [] := by
          have hunnoted : (Condition.holds s.unnoted.machine.environment condition).run.run
              s.unnoted.generator = (.ok true, g) := hholds
          rwa [hunnoted] at hreached
        have houtside := Condition.quotedAfter_of_holds hquotes hholds
        rw [← quotedAfter_congr hcondition, houtside] at hclause hbody
        let decided : Execution := { s with generator := g, notes := notes }
        have hreads : RunsAlike Execution.unnoted decided.unnoted (body.execute line)
            (body'.execute line) := ih hbody hreached
        cases clause with
        | none =>
          cases clause' with
          | none => exact hreads
          | some code' => cases hclause
        | some code =>
          cases clause' with
          | none => cases hclause
          | some code' =>
            refine (Exec.runsAlike_note _ _ _).bind fun _ t t' ht hnote => ?_
            cases hnote
            rw [← ht] at hreads
            exact hreads
    | _ => cases h
  | loop header =>
    cases c' with
    | loop header' => exact LoopHeader.execute_of_capitals (Command.loop.inj h)
    | _ => cases h
  | invalid fault =>
    cases c' with
    | invalid fault' =>
      refine runsAlike_throw ?_
      rw [← Fault.caseless_inCapitals false, Command.invalid.inj h, Fault.caseless_inCapitals]
    | _ => cases h
  | ret | next | goto | gosub | finish | remark =>
    cases c' <;> cases h
    exact (Exec.stepwise_ignoresNotes.execute line _).runsAlike

end LineBasic
