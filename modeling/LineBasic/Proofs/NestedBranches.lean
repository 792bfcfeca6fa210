import LineBasic.Proofs.Replacement
import LineBasic.Proofs.Wordings

/-!
Branches in the clauses of branches. Where their conditions hold one after another, a step
does what it would do if the innermost clause were the statement itself; the program of
that statement is the same but for the code of one line. Where one does not hold, nothing
is done, and where one cannot be decided, that is the fault.
-/

namespace LineBasic

open Text

instance decidableEqExcept {ε α : Type} [DecidableEq ε] [DecidableEq α] :
    DecidableEq (Except ε α)
  | .ok a, .ok b => decidable_of_iff (a = b) ⟨congrArg Except.ok, Except.ok.inj⟩
  | .error e, .error f => decidable_of_iff (e = f) ⟨congrArg Except.error, Except.error.inj⟩
  | .ok _, .error _ => isFalse nofun
  | .error _, .ok _ => isFalse nofun

namespace Condition

/-- Whether all conditions hold. They are decided in turn, up to the first that does not
hold. -/
def allHold (env : Environment) : List (List Char) → Eval Fault Bool
  | [] => return true
  | c :: cs => do
    if ← holds env c then allHold env cs else return false

/-- Only a condition that cannot be decided makes deciding it fault. -/
theorem eq_undecided_of_holds {env : Environment} {cs : List Char} {f : Fault}
    {g g' : Generator} (h : (holds env cs).run.run g = (.error f, g')) :
    f = .undecidedCondition (String.ofList cs) (String.ofList (expand env cs)) := by
  unfold holds at h
  simp only at h
  split at h
  · cases h
    rfl
  · next e _ =>
    rw [run_run_bind, run_run_adapt] at h
    cases heval : (e.eval Environment.empty).run.run g with
    | mk r g₁ =>
      rw [heval] at h
      cases r with
      | ok v => cases h
      | error failure =>
        cases h
        rfl

end Condition

namespace Command

/-- A statement as the last clause of branches with these conditions. -/
def branchText (conditions : List (List Char)) (statement : List Char) : List Char :=
  conditions.foldr
    (fun c rest => "IF".toList ++ ' ' :: (c ++ ' ' :: ("THEN".toList ++ ' ' :: rest))) statement

/-- The statement that a clause stands for: a bare line number is jumped to. -/
def bareText (clause : List Char) : List Char :=
  if clause.all isDigit then "GOTO".toList ++ ' ' :: clause else clause

structure IsCondition (cs : List Char) : Prop where
  edges : HasEdges cs
  free : ¬ HasWord "THEN".toList cs

section Reading

variable {condition clause : List Char}

theorem hasEdges_branchText (conditions : List (List Char)) (h : HasEdges clause) :
    HasEdges (branchText conditions clause) := by
  induction conditions with
  | nil => exact h
  | cons c conditions ih =>
    have hedges := (Shape.hasEdges_word .IF).append ih (' ' :: (c ++ " THEN ".toList))
    simpa [branchText, Keyword.word] using hedges

/-- A branch is no line number. -/
theorem bareText_branchText (conditions : List (List Char)) (statement : List Char)
    (hne : conditions ≠ []) :
    bareText (branchText conditions statement) = branchText conditions statement := by
  obtain ⟨c, conditions, rfl⟩ := List.exists_cons_of_ne_nil hne
  exact if_neg (by simp [branchText, isDigit, digit?])

theorem hasEdges_bareText (h : HasEdges clause) : HasEdges (bareText clause) := by
  unfold bareText
  split
  · exact (Shape.hasEdges_word .GOTO).append h [' ']
  · exact h

theorem ofTrimmed_goto (h : HasEdges clause) (hdigits : clause.all isDigit = true) :
    ofTrimmed ("GOTO".toList ++ ' ' :: clause) = .goto (.ofDigits clause) := by
  have hk : Shape.keyword? ("GOTO".toList ++ ' ' :: clause) = some (.GOTO, ' ' :: clause) :=
    Shape.keyword?_word_append .GOTO (stopsAt_cons (by decide))
  have hne : clause ≠ [] := by
    obtain ⟨c, rest, rfl, -⟩ := h.first
    simp
  have htarget : Shape.target? (' ' :: clause) = some (.ofDigits clause) :=
    Shape.target?_of_trim h.trim hne hdigits
  rw [ofTrimmed_eq]
  simp only [hk, htarget]

/-- A branch is read as its condition and the statement that its clause stands for, where
THEN stands first in any case and between any blanks. -/
theorem ofTrimmed_if {front : List Char} {x y : Char}
    (hcondition : ∃ c ∈ condition, isBlank c = false) (hfree : ¬ HasWord "THEN".toList condition)
    (hfront : front.map upperChar = "THEN".toList.map ([·])) (hx : isBlank x = true)
    (hy : isBlank y = true) (hclause : ∃ c ∈ clause, isBlank c = false) :
    ofTrimmed ("IF".toList ++ ' ' :: (condition ++ x :: (front ++ y :: clause))) =
      .branch (trim condition)
        (if (trim clause).all isDigit then none else some (String.ofList (trim clause)))
        (ofTrimmed (bareText (trim clause))) := by
  have hk : Shape.keyword? ("IF".toList ++ ' ' :: (condition ++ x :: (front ++ y :: clause))) =
      some (.IF, ' ' :: (condition ++ x :: (front ++ y :: clause))) :=
    Shape.keyword?_word_append .IF (stopsAt_cons (by decide))
  have hparts := Shape.conditional?_append hcondition hfree hfront hx hy hclause
  have hedges : HasEdges (trim clause) := by
    obtain ⟨c, hmem, hc⟩ := hclause
    exact hasEdges_trim (trim_ne_nil_of_mem hmem hc)
  rw [ofTrimmed_eq]
  simp only [hk, hparts]
  unfold bareText
  split
  · next hdigits => rw [ofTrimmed_goto hedges hdigits]
  · rfl

theorem ofTrimmed_branch (hcondition : ∃ c ∈ condition, isBlank c = false)
    (hfree : ¬ HasWord "THEN".toList condition) (hclause : ∃ c ∈ clause, isBlank c = false) :
    ofTrimmed (branchText [condition] clause) = .branch (trim condition)
      (if (trim clause).all isDigit then none else some (String.ofList (trim clause)))
      (ofTrimmed (bareText (trim clause))) :=
  ofTrimmed_if hcondition hfree Shape.isInner_then.map_self (by decide) (by decide) hclause

/-- A trimmed condition is read as it is, and so is a trimmed clause. -/
theorem IsCondition.ofTrimmed_branch (hcondition : IsCondition condition)
    (hclause : HasEdges clause) :
    ofTrimmed (branchText [condition] clause) = .branch condition
      (if clause.all isDigit then none else some (String.ofList clause))
      (ofTrimmed (bareText clause)) := by
  rw [Command.ofTrimmed_branch hcondition.edges.exists_mem hcondition.free hclause.exists_mem,
    hcondition.edges.trim, hclause.trim]

end Reading

section Execution

variable {e : Execution} {conditions : List (List Char)} {statement : List Char} {g : Generator}

/-- Behind conditions that hold, what stands in the clause is executed. -/
theorem execute_branchText (line : Nat) (hconditions : ∀ c ∈ conditions, IsCondition c)
    (hstatement : HasEdges statement)
    (h : (Condition.allHold e.machine.environment conditions).run.run e.generator =
      (.ok true, g)) :
    ∃ notes, ((ofTrimmed (bareText (branchText conditions statement))).execute line).run.run e =
      ((ofTrimmed (bareText statement)).execute line).run.run
        { e with generator := g, notes := notes } := by
  induction conditions generalizing e with
  | nil =>
    cases h
    exact ⟨e.notes, rfl⟩
  | cons c conditions ih =>
    obtain ⟨hc, hrest⟩ := List.forall_mem_cons.mp hconditions
    have hread := hc.ofTrimmed_branch (hasEdges_branchText conditions hstatement)
    rw [Condition.allHold, run_run_bind] at h
    split at h
    · next b g₁ hholds =>
      cases b with
      | false => cases h
      | true =>
        obtain ⟨notes₁, hbranch⟩ := Exec.run_branch e line c _ _
        simp only [hholds] at hbranch
        obtain ⟨notes, hbody⟩ := ih (e := { e with generator := g₁, notes := notes₁ }) hrest h
        refine ⟨notes, ?_⟩
        rw [bareText_branchText _ _ (List.cons_ne_nil _ _), ← hbody, ← hbranch]
        exact congrArg (fun c => (execute line c).run.run e) hread
    · cases h

end Execution

end Command

namespace Interpreter

section Branches

variable {i : Interpreter} {s : Statement} {conditions before after : List (List Char)}
  {c statement : List Char} {g g' : Generator} {f : Fault}

/-- The interpreter with the statement of a clause in place of its statement, and with
another generator. -/
def atClause (statement : List Char) (g : Generator) (i : Interpreter) : Interpreter :=
  { i.load (i.program.withCode i.machine.place (String.ofList (Command.bareText statement))) with
    generator := g }

/-- Executing the statement itself has the outcome of the branches, if all conditions
hold. -/
theorem outcome_atClause (hne : conditions ≠ [])
    (hconditions : ∀ c ∈ conditions, Command.IsCondition c) (hstatement : HasEdges statement)
    (hcode : trimString s.code = String.ofList (Command.branchText conditions statement))
    (hall : (Condition.allHold i.machine.environment conditions).run.run i.generator =
      (.ok true, g)) :
    let bare : Statement := { s with code := String.ofList (Command.bareText statement) }
    ((i.atClause statement g).outcome bare).1 = (i.outcome s).1 ∧
      ((i.atClause statement g).outcome bare).2.generator = (i.outcome s).2.generator := by
  intro bare
  have hedges : HasEdges (String.ofList (Command.bareText statement)).toList := by
    rw [String.toList_ofList]
    exact Command.hasEdges_bareText hstatement
  have hbare : trimString bare.code = String.ofList (Command.bareText statement) :=
    hedges.trimString
  obtain ⟨notes, hexecute⟩ :=
    Command.execute_branchText (e := i.begun s) s.number hconditions hstatement hall
  rw [Command.bareText_branchText _ _ hne, ← Command.ofText_trimString hcode, ← execution_eq]
    at hexecute
  have hblind := Exec.stepwise_ignoresNotes.execute s.number
    (Command.ofTrimmed (Command.bareText statement)) ((i.atClause statement g).begun bare)
    { i.begun s with generator := g, notes := notes } rfl
  rw [← hexecute, ← Command.ofText_trimString hbare] at hblind
  exact outcome_congr hblind.1 hblind.2

/-- Deciding the next condition is what is left once those before it hold. -/
theorem exists_execution_of_before
    (hconditions : ∀ d ∈ before ++ c :: after, Command.IsCondition d)
    (hstatement : HasEdges statement)
    (hcode : trimString s.code =
      String.ofList (Command.branchText (before ++ c :: after) statement))
    (hbefore : (Condition.allHold i.machine.environment before).run.run i.generator =
      (.ok true, g)) :
    ∃ clause body notes, i.execution s = ((Command.branch c clause body).execute s.number).run.run
      { i.begun s with generator := g, notes := notes } := by
  have hc : Command.IsCondition c := hconditions c (by simp)
  have hrest := Command.hasEdges_branchText after hstatement
  have hsplit : Command.branchText (before ++ c :: after) statement =
      Command.branchText before (Command.branchText (c :: after) statement) :=
    List.foldr_append
  obtain ⟨notes, hexecute⟩ := Command.execute_branchText (e := i.begun s) s.number
    (fun d hd => hconditions d (List.mem_append_left _ hd))
    (Command.hasEdges_branchText (c :: after) hstatement) hbefore
  have hread := hc.ofTrimmed_branch hrest
  rw [← hsplit, Command.bareText_branchText _ _ (by simp),
    Command.bareText_branchText _ _ (List.cons_ne_nil _ _)] at hexecute
  rw [execution_eq, Command.ofText_trimString hcode, hexecute]
  exact ⟨_, _, notes, congrArg (fun c => (Command.execute s.number c).run.run _) hread⟩

/-- Where a step does not come to the statement, it does not matter what it says. -/
theorem step_atClause_of_idle (hs : i.program.statementAt? i.machine.place = some s)
    (hidle : ¬ i.Executes s) (statement : List Char) (g : Generator) (requests : List Request) :
    Event.lines (i.step requests).events =
        Event.lines ((i.atClause statement g).step requests).events ∧
      (i.step requests).value = { ((i.atClause statement g).step requests).value with
        program := i.program, generator := i.generator } := by
  have hstatus : (i.atClause statement g).status = i.status := rfl
  have hmachine : (i.atClause statement g).machine = i.machine := rfl
  by_cases hon : i.status = .running
  · cases hrunning : i.machine.running with
    | false =>
      simp only [step, hstatus, hmachine, hon, hrunning, ne_eq, not_true_eq_false, if_false,
        Bool.not_false, if_true, value_halt, lines_halt, true_and]
      rfl
    | true =>
      cases hbreak : i.machine.breakRequested with
      | false => exact absurd ⟨hon, hrunning, hbreak, hs⟩ hidle
      | true =>
        simp only [step, hstatus, hmachine, hon, hrunning, hbreak, ne_eq, not_true_eq_false,
          if_false, Bool.not_true, Bool.false_eq_true, if_true, Logged.value_bind,
          Logged.events_bind, value_output, value_halt, Event.lines_append, lines_output,
          lines_halt, ended_asked, true_and]
        rfl
  · simp only [step, hstatus, ne_eq, hon, not_false_eq_true, if_true, Logged.events_pure,
      Logged.value_pure, true_and]
    rfl

/-- A step breaks off at the line number in a clause where one on the statement itself
does. -/
theorem oversized?_step_atClause (hne : conditions ≠ [])
    (hconditions : ∀ c ∈ conditions, Command.IsCondition c) (hstatement : HasEdges statement)
    (hs : i.program.statementAt? i.machine.place = some s)
    (hcode : trimString s.code = String.ofList (Command.branchText conditions statement))
    (hall : (Condition.allHold i.machine.environment conditions).run.run i.generator =
      (.ok true, g)) (requests : List Request) :
    Event.oversized? (i.step requests).events =
      Event.oversized? ((i.atClause statement g).step requests).events := by
  have hbare : (i.atClause statement g).program.statementAt? i.machine.place =
      some { s with code := String.ofList (Command.bareText statement) } :=
    Program.statementAt?_withCode hs
  by_cases hexecutes : i.Executes s
  · obtain ⟨hon, hrunning, hbreak, -⟩ := hexecutes
    obtain ⟨hresult, -⟩ := outcome_atClause hne hconditions hstatement hcode hall
    rw [oversized?_step ⟨hon, hrunning, hbreak, hs⟩,
      oversized?_step (i := i.atClause statement g) ⟨hon, hrunning, hbreak, hbare⟩,
      breaksOff?, breaksOff?, hresult]
  · have hidle (t : Statement) : ¬ i.Executes t := fun ⟨hon, hrunning, hbreak, _⟩ =>
      hexecutes ⟨hon, hrunning, hbreak, hs⟩
    have hidle' (t : Statement) : ¬ (i.atClause statement g).Executes t :=
      fun ⟨hon, hrunning, hbreak, _⟩ => hexecutes ⟨hon, hrunning, hbreak, hs⟩
    rw [oversized?_step_of_idle hidle, oversized?_step_of_idle hidle']

/-- A step on branches whose conditions hold is one on the statement itself. -/
theorem step_atClause (hne : conditions ≠ [])
    (hconditions : ∀ c ∈ conditions, Command.IsCondition c) (hstatement : HasEdges statement)
    (hs : i.program.statementAt? i.machine.place = some s)
    (hcode : trimString s.code = String.ofList (Command.branchText conditions statement))
    (hall : (Condition.allHold i.machine.environment conditions).run.run i.generator =
      (.ok true, g)) (requests : List Request) :
    Event.lines (i.step requests).events =
        Event.lines ((i.atClause statement g).step requests).events ∧
      ∃ generator, (i.step requests).value = { ((i.atClause statement g).step requests).value with
          program := i.program, generator := generator } ∧
        (i.Executes s → generator = ((i.atClause statement g).step requests).value.generator) := by
  have hbare : (i.atClause statement g).program.statementAt? i.machine.place =
      some { s with code := String.ofList (Command.bareText statement) } :=
    Program.statementAt?_withCode hs
  by_cases hexecutes : i.Executes s
  · obtain ⟨hon, hrunning, hbreak, -⟩ := hexecutes
    obtain ⟨hresult, hgenerator⟩ := outcome_atClause hne hconditions hstatement hcode hall
    have hdrawn : (i.atClause statement g).drawn
        { s with code := String.ofList (Command.bareText statement) } =
        (i.drawn s).load (i.atClause statement g).program := by
      rw [drawn, hgenerator]
      rfl
    obtain ⟨hvalue, hlines⟩ := perform_load
      (Program.sameLines_withCode i.program i.machine.place _) hdrawn rfl hresult requests
    have hprogram := program_step requests i
    rw [step_of_executes ⟨hon, hrunning, hbreak, hs⟩] at hprogram
    rw [step_of_executes ⟨hon, hrunning, hbreak, hs⟩, step_of_executes
      (i := i.atClause statement g) ⟨hon, hrunning, hbreak, hbare⟩, hvalue]
    refine ⟨hlines.symm, _, ?_, fun _ => rfl⟩
    rw [load, ← hprogram]
  · obtain ⟨hlines, hvalue⟩ := step_atClause_of_idle hs hexecutes statement g requests
    exact ⟨hlines, i.generator, hvalue, fun hyes => absurd hyes hexecutes⟩

/-- Where a condition does not hold, the run goes on behind the branches. -/
theorem step_of_not_holds (hexecutes : i.Executes s)
    (hconditions : ∀ d ∈ before ++ c :: after, Command.IsCondition d)
    (hstatement : HasEdges statement)
    (hcode : trimString s.code =
      String.ofList (Command.branchText (before ++ c :: after) statement))
    (hbefore : (Condition.allHold i.machine.environment before).run.run i.generator =
      (.ok true, g))
    (hholds : (Condition.holds i.machine.environment c).run.run g = (.ok false, g'))
    (requests : List Request) :
    Event.lines (i.step requests).events = [] ∧
      (i.step requests).value =
        ({ i with generator := g' }.moveTo (i.machine.place + 1)).value := by
  obtain ⟨clause, body, notes, hout⟩ :=
    exists_execution_of_before hconditions hstatement hcode hbefore
  obtain ⟨notes', hbranch⟩ := Exec.run_branch { i.begun s with generator := g, notes := notes }
    s.number c clause body
  rw [hbranch] at hout
  simp only [begun, hholds] at hout
  have hok : (i.outcome s).1 = .ok { machine := i.machine } := by
    rw [outcome, hout]
    rfl
  have hdrawn : i.drawn s = { i with generator := g' } := by rw [drawn, outcome, hout]
  rw [step_of_executes hexecutes, lines_perform_of_ok hok, value_perform_of_ok hok, hdrawn]
  exact ⟨lines_moveTo _ _, rfl⟩

/-- Where a condition cannot be decided, that is the fault of the step. -/
theorem step_of_undecided (hexecutes : i.Executes s)
    (hconditions : ∀ d ∈ before ++ c :: after, Command.IsCondition d)
    (hstatement : HasEdges statement)
    (hcode : trimString s.code =
      String.ofList (Command.branchText (before ++ c :: after) statement))
    (hbefore : (Condition.allHold i.machine.environment before).run.run i.generator =
      (.ok true, g))
    (hholds : (Condition.holds i.machine.environment c).run.run g = (.error f, g'))
    (requests : List Request) :
    Event.lines (i.step requests).events = [errorLine s.number f] ∧
      (i.step requests).value =
        ({ i with generator := g' }.fail requests s.number f).value := by
  obtain ⟨clause, body, notes, hout⟩ :=
    exists_execution_of_before hconditions hstatement hcode hbefore
  obtain ⟨notes', hbranch⟩ := Exec.run_branch { i.begun s with generator := g, notes := notes }
    s.number c clause body
  rw [hbranch] at hout
  simp only [begun, hholds] at hout
  have herror : (i.outcome s).1 = .error f := by
    rw [outcome, hout]
    rfl
  have hdrawn : i.drawn s = { i with generator := g' } := by rw [drawn, outcome, hout]
  rw [step_of_executes hexecutes, value_perform_of_error herror, hdrawn]
  exact ⟨lines_perform_of_error herror, rfl⟩

/-- What a step does on a statement in the clauses of branches. If all conditions hold,
the step is one on the statement itself, on the same line and with the generator as the
conditions left it, and a bare line number is jumped to, or broken off at. If one of them does not hold,
the run goes on behind the line and nothing else is done. If one cannot be decided, that
is the fault. -/
theorem clause_acts_as_statement (hne : conditions ≠ [])
    (hconditions : ∀ c ∈ conditions, Command.IsCondition c) (hstatement : HasEdges statement)
    (hs : i.program.statementAt? i.machine.place = some s)
    (hcode : trimString s.code = String.ofList (Command.branchText conditions statement))
    (requests : List Request) :
    (∀ g, (Condition.allHold i.machine.environment conditions).run.run i.generator =
        (.ok true, g) →
      Event.lines (i.step requests).events =
          Event.lines ((i.atClause statement g).step requests).events ∧
        Event.oversized? (i.step requests).events =
          Event.oversized? ((i.atClause statement g).step requests).events ∧
        ∃ generator,
          (i.step requests).value = { ((i.atClause statement g).step requests).value with
            program := i.program, generator := generator } ∧
          (i.Executes s →
            generator = ((i.atClause statement g).step requests).value.generator)) ∧
      (i.Executes s → ∀ before c after g, conditions = before ++ c :: after →
        (Condition.allHold i.machine.environment before).run.run i.generator = (.ok true, g) →
        (∀ g', (Condition.holds i.machine.environment c).run.run g = (.ok false, g') →
          Event.lines (i.step requests).events = [] ∧
            (i.step requests).value =
              ({ i with generator := g' }.moveTo (i.machine.place + 1)).value) ∧
        ∀ f g', (Condition.holds i.machine.environment c).run.run g = (.error f, g') →
          f = .undecidedCondition (String.ofList c)
              (String.ofList (Condition.expand i.machine.environment c)) ∧
            Event.lines (i.step requests).events = [errorLine s.number f] ∧
            (i.step requests).value =
              ({ i with generator := g' }.fail requests s.number f).value) := by
  refine ⟨fun g hall => ?_, fun hexecutes before c after g hsplit hbefore => ⟨?_, ?_⟩⟩
  · obtain ⟨hlines, hvalue⟩ := step_atClause hne hconditions hstatement hs hcode hall requests
    exact ⟨hlines,
      oversized?_step_atClause hne hconditions hstatement hs hcode hall requests, hvalue⟩
  · intro g' hholds
    subst hsplit
    exact step_of_not_holds hexecutes hconditions hstatement hcode hbefore hholds requests
  · intro f g' hholds
    subst hsplit
    exact ⟨Condition.eq_undecided_of_holds hholds,
      step_of_undecided hexecutes hconditions hstatement hcode hbefore hholds requests⟩

def comparison : Program :=
  (Program.load ["10 IF A THEN IF A < 2 THEN 10"]).toOption.getD .empty

/-- A run that has come to the branches, with a value of A. -/
def comparing (v : Value) : Interpreter where
  program := comparison
  machine := { environment := (Environment.empty.set "A" v).toOption.getD .empty, running := true }
  status := .running
  generator := ⟨#[], 0⟩

/-- Both conditions hold, the second does not, or it cannot be decided. -/
theorem clause_acts_as_statement_at_comparing :
    Event.lines ((comparing (.number 1)).step []).events =
        Event.lines (((comparing (.number 1)).atClause "10".toList ⟨#[], 0⟩).step []).events ∧
      ((comparing (.number 3)).step []).value = ((comparing (.number 3)).moveTo 1).value ∧
      Event.lines ((comparing (.text "x")).step []).events =
        ["Error at line 10: Cannot evaluate condition: A < 2 (rewritten as \"x\" < 2)"] := by
  let conditions := ["A".toList, "A < 2".toList]
  have hfirst : Command.IsCondition "A".toList :=
    ⟨hasEdges_of_forall (by decide) (by simp [isBlank]), by decide +kernel⟩
  have hsecond : Command.IsCondition "A < 2".toList :=
    ⟨⟨⟨'A', " < 2".toList, rfl, by decide⟩, "A < ".toList, '2', rfl, by decide⟩, by decide +kernel⟩
  have hconditions : ∀ c ∈ conditions, Command.IsCondition c :=
    List.forall_mem_cons.mpr ⟨hfirst, List.forall_mem_singleton.mpr hsecond⟩
  have hstatement : HasEdges "10".toList := hasEdges_of_forall (by decide) (by simp [isBlank])
  have hcode : trimString "IF A THEN IF A < 2 THEN 10" =
      String.ofList (Command.branchText conditions "10".toList) := by decide +kernel
  have hs : comparison.statementAt? 0 = some ⟨10, "IF A THEN IF A < 2 THEN 10", by decide⟩ := by
    decide +kernel
  have hsteps (v : Value) := clause_acts_as_statement (i := comparing v) (by simp [conditions])
    hconditions hstatement hs hcode []
  have hexecutes (v : Value) :
      (comparing v).Executes ⟨10, "IF A THEN IF A < 2 THEN 10", by decide⟩ := ⟨rfl, rfl, rfl, hs⟩
  have hsplit : conditions = ["A".toList] ++ "A < 2".toList :: [] := rfl
  have hboth := (hsteps (.number 1)).1 ⟨#[], 0⟩ (Prod.ext (by decide +kernel) (by decide +kernel))
  have hdecided (v : Value) := (hsteps v).2 (hexecutes v) _ _ _ ⟨#[], 0⟩ hsplit
  have hfalse := (hdecided (.number 3) (Prod.ext (by decide +kernel) (by decide +kernel))).1
    ⟨#[], 0⟩ (Prod.ext (by decide +kernel) (by decide +kernel))
  have herror := (hdecided (.text "x") (Prod.ext (by decide +kernel) (by decide +kernel))).2
    (.undecidedCondition "A < 2" "\"x\" < 2") ⟨#[], 0⟩
    (Prod.ext (by decide +kernel) (by decide +kernel))
  refine ⟨hboth.1, hfalse.2, ?_⟩
  rw [herror.2.1]
  decide +kernel

end Branches

end Interpreter

end LineBasic
