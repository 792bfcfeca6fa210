import LineBasic.Proofs.CapitalCommands
import LineBasic.Proofs.Detail
import LineBasic.Proofs.Replacement

/-!
Runs of programs that differ in the case of letters. Outside text literals the case
of a letter does not tell, as long as no statement exposes it. The two interpreters
then stay twins: whatever is done to them, and in runs of any length, they differ in
nothing but the text that a fault quotes.
-/

namespace LineBasic

open Text

def Statement.inCapitals (s : Statement) : Statement :=
  { s with code := String.ofList (capitals false s.code.toList) }

/-- Whether two programs differ in nothing but the case of ASCII letters outside text
literals. -/
def Program.SameButCase (p q : Program) : Prop :=
  p.statements.map Statement.inCapitals = q.statements.map Statement.inCapitals

instance (p q : Program) : Decidable (p.SameButCase q) :=
  inferInstanceAs (Decidable (_ = _))

section Programs

variable {p q : Program} {s t : Statement}

theorem Program.SameButCase.sameLines (h : p.SameButCase q) : p.SameLines q := by
  have hnumbers := congrArg (List.map Statement.number) h
  rwa [List.map_map, List.map_map] at hnumbers

theorem Program.SameButCase.statementAt?_eq (h : p.SameButCase q) (index : Nat) :
    (p.statementAt? index).map Statement.inCapitals =
      (q.statementAt? index).map Statement.inCapitals := by
  rw [statementAt?, statementAt?, ← List.getElem?_map, h, List.getElem?_map]

theorem Statement.number_of_inCapitals (h : s.inCapitals = t.inCapitals) : s.number = t.number := by
  have hnumber := congrArg number h
  exact hnumber

/-- Statements that are the same in capitals have the same command in capitals. -/
theorem Statement.command_of_inCapitals (h : s.inCapitals = t.inCapitals) :
    (Command.ofText (trimString s.code)).inCapitals false =
      (Command.ofText (trimString t.code)).inCapitals false := by
  have hcode : capitals false s.code.toList = capitals false t.code.toList :=
    String.ofList_injective (congrArg code h)
  rw [Command.ofText, Command.ofText, trimString, trimString, String.toList_ofList,
    String.toList_ofList, ← Command.ofTrimmed_capitals, ← Command.ofTrimmed_capitals,
    ← trim_capitals, ← trim_capitals, hcode, trim_capitals, trim_capitals]

end Programs

inductive Event.Alike : Event → Event → Prop
  | same (e : Event) : Alike e e
  | error (line : Nat) {f f' : Fault} (h : f.caseless = f'.caseless) :
      Alike (.output (Interpreter.errorLine line f)) (.output (Interpreter.errorLine line f'))

theorem Event.countOutputs_of_alike {events events' : List Event}
    (h : List.Forall₂ Alike events events') : countOutputs events = countOutputs events' := by
  induction h with
  | nil => rfl
  | cons he _ ih =>
    rw [countOutputs, countOutputs, List.countP_cons, List.countP_cons, ← countOutputs,
      ← countOutputs, ih]
    cases he <;> rfl

theorem Event.oversized?_of_alike {events events' : List Event}
    (h : List.Forall₂ Alike events events') : oversized? events = oversized? events' := by
  induction h with
  | nil => rfl
  | cons he _ ih =>
    rw [oversized?, oversized?, List.findSome?_cons, List.findSome?_cons, ← oversized?,
      ← oversized?, ih]
    cases he <;> rfl

namespace Logged

variable {α β γ δ : Type} {R : α → β → Prop} {S : γ → δ → Prop} {x : Logged α} {y : Logged β}

structure Matches (R : α → β → Prop) (x : Logged α) (y : Logged β) : Prop where
  value : R x.value y.value
  events : List.Forall₂ Event.Alike (x.events.filter (!·.isTrace)) (y.events.filter (!·.isTrace))

theorem matches_pure {a : α} {b : β} (h : R a b) : Matches R (pure a) (pure b) := ⟨h, .nil⟩

theorem matches_same (x : Logged Unit) : Matches (fun _ _ => True) x x :=
  ⟨trivial, List.forall₂_same.mpr fun e _ => .same e⟩

theorem Matches.bind {f : α → Logged γ} {f' : β → Logged δ} (h : Matches R x y)
    (hf : ∀ a b, R a b → Matches S (f a) (f' b)) : Matches S (x >>= f) (y >>= f') where
  value := (hf _ _ h.value).value
  events := by
    rw [events_bind, events_bind, List.filter_append, List.filter_append]
    exact List.rel_append h.events (hf _ _ h.value).events

theorem Matches.countOutputs (h : Matches R x y) :
    Event.countOutputs x.events = Event.countOutputs y.events := by
  have huntraced (events : List Event) :
      Event.countOutputs (events.filter (!·.isTrace)) = Event.countOutputs events := by
    rw [Event.countOutputs, Event.countOutputs, List.countP_filter]
    refine List.countP_congr fun e _ => ?_
    cases e <;> simp [Event.isTrace]
  rw [← huntraced x.events, ← huntraced y.events, Event.countOutputs_of_alike h.events]

theorem Matches.oversized? (h : Matches R x y) :
    Event.oversized? x.events = Event.oversized? y.events := by
  have huntraced (events : List Event) :
      Event.oversized? (events.filter (!·.isTrace)) = Event.oversized? events :=
    Event.oversized?_filter (fun _ => rfl) events
  rw [← huntraced x.events, ← huntraced y.events, Event.oversized?_of_alike h.events]

end Logged

namespace Interpreter

open Logged

def exposures (i : Interpreter) : List Exposure :=
  if i.status = .running ∧ i.machine.running = true ∧ i.machine.breakRequested = false then
    match i.program.statementAt? i.machine.place with
    | some s =>
      (Command.ofText (trimString s.code)).exposures i.machine.environment i.generator
    | none => []
  else []

structure Twins (i j : Interpreter) : Prop where
  program : i.program.SameButCase j.program
  machine : i.machine = j.machine
  status : i.status = j.status
  pending : i.pending = j.pending
  generator : i.generator = j.generator
  fault : i.fault.map Fault.caseless = j.fault.map Fault.caseless

section Laws

variable {i j : Interpreter} {requests : List Request} {s t : Statement}

theorem filter_events_note (i : Interpreter) (n : Note) :
    (i.note n).events.filter (!·.isTrace) = [] := by
  unfold note
  split <;> rfl

theorem matches_note (i j : Interpreter) (n n' : Note) :
    Matches (fun _ _ => True) (i.note n) (j.note n') := by
  refine ⟨trivial, ?_⟩
  rw [filter_events_note, filter_events_note]
  exact .nil

theorem matches_noteAll (i j : Interpreter) (ns ns' : List Note) :
    Matches (fun _ _ => True) (i.noteAll ns) (j.noteAll ns') := by
  have hnotes (i : Interpreter) (ns : List Note) :
      (i.noteAll ns).events.filter (!·.isTrace) = [] := by
    induction ns with
    | nil => rfl
    | cons n ns ih =>
      rw [noteAll, events_bind, List.filter_append, filter_events_note, ih, List.nil_append]
  refine ⟨trivial, ?_⟩
  rw [hnotes, hnotes]
  exact .nil

theorem Twins.halt (h : i.Twins j) (reason : HaltReason) :
    Matches Twins (i.halt reason) (j.halt reason) := by
  refine (matches_note i j _ _).bind fun _ _ _ => matches_pure ?_
  exact { h with
    machine := congrArg (fun m => { m with running := false }) h.machine
    pending := rfl
    status := rfl }

theorem Twins.stop (h : i.Twins j) : Matches Twins i.stop j.stop := by
  let k : Interpreter := { i with machine := { i.machine with running := false } }
  let l : Interpreter := { j with machine := { j.machine with running := false } }
  have hoff : k.Twins l :=
    { h with machine := congrArg (fun m => { m with running := false }) h.machine }
  change Matches Twins
    (if k.status = .running ∨ k.status = .waiting then k.halt .stopped else pure k)
    (if l.status = .running ∨ l.status = .waiting then l.halt .stopped else pure l)
  rw [hoff.status]
  split
  · exact hoff.halt .stopped
  · exact matches_pure hoff

theorem Twins.requestBreak (h : i.Twins j) : i.requestBreak.Twins j.requestBreak :=
  { h with machine := congrArg (fun m => { m with breakRequested := true }) h.machine }

theorem Twins.handle (h : i.Twins j) : Matches Twins (i.handle requests) (j.handle requests) := by
  induction requests generalizing i j with
  | nil => exact matches_pure h
  | cons r rest ih =>
    cases r with
    | «break» => exact ih h.requestBreak
    | stop => exact h.stop.bind fun _ _ hk => ih hk

theorem Twins.output {line line' : String} (h : i.Twins j)
    (hline : Event.Alike (.output line) (.output line')) :
    Matches Twins (i.output requests line) (j.output requests line') := by
  have hevent : Matches (fun _ _ => True) (Logged.event (.output line))
      (Logged.event (.output line')) := ⟨trivial, .cons hline .nil⟩
  exact hevent.bind fun _ _ _ => h.handle

theorem Twins.fail {f f' : Fault} (h : i.Twins j) (hf : f.caseless = f'.caseless) (line : Nat) :
    Matches Twins (i.fail requests line f) (j.fail requests line f') := by
  have hfault : Twins { i with fault := some f } { j with fault := some f' } :=
    { h with fault := congrArg some hf }
  refine (matches_note _ _ _ _).bind fun _ _ _ => ?_
  exact (hfault.output (.error line hf)).bind fun _ _ hk => hk.halt .faulted

theorem Twins.moveTo (h : i.Twins j) (index : Nat) :
    Matches Twins (i.moveTo index) (j.moveTo index) := by
  have hplaced : (i.placed index).Twins (j.placed index) :=
    { h with machine := congrArg (fun m => { m with place := index }) h.machine }
  change Matches Twins
    (if i.program.size ≤ index then (i.placed index).halt .programEnd else pure (i.placed index))
    (if j.program.size ≤ index then (j.placed index).halt .programEnd else pure (j.placed index))
  rw [h.program.sameLines.size_eq]
  split
  · exact hplaced.halt .programEnd
  · exact matches_pure hplaced

theorem Twins.follow (h : i.Twins j) (line : Nat) (t : Transfer) :
    Matches Twins (i.follow requests line t) (j.follow requests line t) := by
  cases t with
  | advance =>
    rw [Interpreter.follow, Interpreter.follow, h.machine]
    exact h.moveTo _
  | moveTo index => exact h.moveTo index
  | finish => exact h.halt .endStatement
  | await name prompt => exact matches_pure { h with pending := rfl, status := rfl }
  | jump target =>
    cases target with
    | oversized digits => exact (matches_same _).bind fun _ _ _ => matches_pure h
    | line number =>
      simp only [Interpreter.follow, h.program.sameLines.indexOf?_eq]
      cases j.program.indexOf? number with
      | none => exact h.fail rfl line
      | some index => exact (matches_note _ _ _ _).bind fun _ _ _ => h.moveTo index

theorem Twins.outputAll (h : i.Twins j) (lines : List String) :
    Matches Twins (i.outputAll requests lines) (j.outputAll requests lines) := by
  induction lines generalizing i j with
  | nil => exact matches_pure h
  | cons line lines ih => exact (h.output (.same _)).bind fun _ _ hk => ih hk

/-- Without an exposure twins execute a statement alike. -/
theorem Twins.execution (h : i.Twins j) (hs : s.inCapitals = t.inCapitals)
    (hexposed : (Command.ofText (trimString s.code)).exposures i.machine.environment i.generator
      = []) :
    (i.execution s).1.mapError Fault.caseless = (j.execution t).1.mapError Fault.caseless ∧
      (i.execution s).2.unnoted = (j.execution t).2.unnoted := by
  have hbegun : (j.begun t).unnoted = (i.begun s).unnoted := by
    rw [begun, begun, Execution.unnoted, Execution.unnoted, h.machine, h.generator]
  have halike : RunsAlike Execution.unnoted (i.begun s).unnoted
      ((Command.ofText (trimString s.code)).execute s.number)
      ((Command.ofText (trimString t.code)).execute s.number) :=
    Command.execute_of_capitals (Statement.command_of_inCapitals hs) hexposed s.number
  rw [execution_eq, execution_eq, ← Statement.number_of_inCapitals hs]
  exact halike (i.begun s) (j.begun t) rfl hbegun

theorem Twins.perform (h : i.Twins j) (hs : s.inCapitals = t.inCapitals)
    (hexposed : (Command.ofText (trimString s.code)).exposures i.machine.environment i.generator
      = []) : Matches Twins (i.perform requests s) (j.perform requests t) := by
  obtain ⟨hresult, hrest⟩ := h.execution hs hexposed
  have hnumber := Statement.number_of_inCapitals hs
  unfold Interpreter.perform
  rw [← hnumber]
  generalize i.execution s = x at hresult hrest
  generalize j.execution t = y at hresult hrest
  obtain ⟨result, e⟩ := x
  obtain ⟨result', e'⟩ := y
  obtain ⟨notes, rfl⟩ := Execution.unnoted_eq_iff.mp hrest
  have hafter : Twins { i with machine := e.machine, generator := e.generator }
      { j with machine := e.machine, generator := e.generator } :=
    { h with machine := rfl, generator := rfl }
  refine (matches_noteAll _ _ _ _).bind fun _ _ _ => ?_
  refine (hafter.outputAll e.lines).bind fun k l hkl => ?_
  cases result with
  | error f =>
    cases result' with
    | error f' => exact hkl.fail (Except.error.inj hresult) s.number
    | ok transfer' => cases hresult
  | ok transfer =>
    cases result' with
    | error f' => cases hresult
    | ok transfer' =>
      cases hresult
      exact hkl.follow s.number transfer

theorem exposures_of_executes (h : i.Executes s) : i.exposures =
    (Command.ofText (trimString s.code)).exposures i.machine.environment i.generator := by
  obtain ⟨hrunning, hon, hbreak, hs⟩ := h
  rw [exposures, if_pos ⟨hrunning, hon, hbreak⟩, hs]

theorem Twins.step (h : i.Twins j) (requests : List Request) (hexposed : i.exposures = []) :
    Matches Twins (i.step requests) (j.step requests) := by
  unfold Interpreter.step
  rw [← h.status, ← h.machine]
  by_cases hrunning : i.status ≠ .running
  · rw [if_pos hrunning, if_pos hrunning]
    exact matches_pure h
  rw [if_neg hrunning, if_neg hrunning]
  by_cases hon : (!i.machine.running) = true
  · rw [if_pos hon, if_pos hon]
    exact h.halt .stopped
  rw [if_neg hon, if_neg hon]
  by_cases hbreak : i.machine.breakRequested = true
  · rw [if_pos hbreak, if_pos hbreak]
    exact (h.output (.same _)).bind fun _ _ hk => hk.halt .broken
  rw [if_neg hbreak, if_neg hbreak]
  have hstatement := h.program.statementAt?_eq i.machine.place
  cases hs : i.program.statementAt? i.machine.place with
  | none =>
    rw [hs] at hstatement
    rw [Option.map_eq_none_iff.mp hstatement.symm]
    exact h.halt .programEnd
  | some s =>
    rw [hs] at hstatement
    obtain ⟨t, ht, heq⟩ := Option.map_eq_some_iff.mp hstatement.symm
    have hexecutes : i.Executes s :=
      ⟨not_not.mp hrunning, by simpa using hon, by simpa using hbreak, hs⟩
    rw [ht]
    exact h.perform heq.symm (exposures_of_executes hexecutes ▸ hexposed)

theorem Twins.start (h : i.Twins j) : Matches Twins i.start j.start := by
  refine (matches_note _ _ _ _).bind fun _ _ _ => matches_pure ?_
  exact { h with machine := rfl, fault := rfl, pending := rfl, status := rfl }

/-- Whether operations come back alike: with the same error, and with twins. -/
def ReplyTwins (x y : Option ResumeError × Interpreter) : Prop := x.1 = y.1 ∧ x.2.Twins y.2

theorem Twins.resume (h : i.Twins j) (answer : String) :
    Matches ReplyTwins (i.resume answer) (j.resume answer) := by
  unfold Interpreter.resume
  rw [h.status, h.pending, h.machine]
  cases hstatus : j.status with
  | waiting =>
    cases hpending : j.pending with
    | none => exact matches_pure ⟨rfl, h⟩
    | some p =>
      simp only
      cases hset : j.machine.environment.set p.name (answerValue (trim answer.toList)) with
      | error f =>
        exact matches_pure ⟨rfl, { h with machine := rfl, pending := rfl, status := rfl }⟩
      | ok environment =>
        let machine := { j.machine with environment := environment }
        have hbound : Twins { i with pending := none, machine := machine, status := .running }
            { j with pending := none, machine := machine, status := .running } :=
          { h with machine := rfl, pending := rfl, status := rfl }
        refine (matches_note _ _ _ _).bind fun _ _ _ => ?_
        exact (hbound.moveTo _).bind fun _ _ hk => matches_pure ⟨rfl, hk⟩
  | idle | running | halted => exact matches_pure ⟨rfl, h⟩

/-- Whatever is done to twins, unless it is a step that exposes the case of a letter,
they stay twins. -/
theorem Twins.operate {o : Operation} (h : i.Twins j)
    (hexposed : ∀ requests, o = .step requests → i.exposures = []) :
    Matches ReplyTwins (i.operate o) (j.operate o) := by
  cases o with
  | load program => exact matches_pure ⟨rfl, { h with program := rfl }⟩
  | start program =>
    have hloaded : (program.elim i i.load).Twins (program.elim j j.load) := by
      cases program with
      | none => exact h
      | some p => exact { h with program := rfl }
    exact hloaded.start.bind fun _ _ hk => matches_pure ⟨rfl, hk⟩
  | step requests =>
    exact (h.step requests (hexposed requests rfl)).bind fun _ _ hk => matches_pure ⟨rfl, hk⟩
  | resume answer => exact h.resume answer
  | requestBreak => exact matches_pure ⟨rfl, h.requestBreak⟩
  | stop => exact h.stop.bind fun _ _ hk => matches_pure ⟨rfl, hk⟩

theorem Twins.after {os : List Operation} (h : i.Twins j)
    (hexposed : ∀ before requests after, os = before ++ .step requests :: after →
      (i.after before).exposures = []) : (i.after os).Twins (j.after os) := by
  induction os generalizing i j with
  | nil => exact h
  | cons o os ih =>
    have hstep : ∀ requests, o = .step requests → i.exposures = [] := by
      rintro requests rfl
      exact hexposed [] requests os rfl
    refine ih (h.operate hstep).value.2 fun before requests after hos => ?_
    exact hexposed (o :: before) requests after (by rw [hos, List.cons_append])

end Laws

end Interpreter

namespace Run

open Logged

structure Twins (r r' : Run) : Prop where
  interpreter : r.interpreter.Twins r'.interpreter
  answers : r.answers = r'.answers
  outputs : r.outputs = r'.outputs
  pauses : r.pauses = r'.pauses
  abort : r.abort = r'.abort

section Laws

variable {r r' : Run}

theorem Twins.isOver_eq (h : r.Twins r') : r.isOver = r'.isOver := by
  rw [isOver, isOver, h.interpreter.status, h.abort]

theorem Twins.answer (h : r.Twins r') (text : String) :
    Matches Twins (r.answer text) (r'.answer text) := by
  refine (h.interpreter.resume text).bind fun x y hxy => ?_
  obtain ⟨error, i⟩ := x
  obtain ⟨error', j⟩ := y
  obtain ⟨rfl, hij⟩ : error = error' ∧ i.Twins j := hxy
  obtain _ | _ | f := error
  · exact matches_pure { h with interpreter := hij }
  · exact matches_pure { h with interpreter := hij }
  · exact matches_pure { h with interpreter := hij, abort := rfl }

theorem Twins.ask (h : r.Twins r') (exhausted : Exhausted) :
    Matches Twins (r.ask exhausted) (r'.ask exhausted) := by
  unfold Run.ask Run.prompt
  rw [h.interpreter.pending]
  refine (matches_same _).bind fun _ _ _ => ?_
  rw [h.answers]
  cases r'.answers with
  | cons text rest =>
    have hrest : Twins { r with answers := rest } { r' with answers := rest } :=
      { h with answers := rfl }
    exact hrest.answer text
  | nil =>
    cases exhausted with
    | blank => exact h.answer ""
    | stop farewell =>
      refine h.interpreter.stop.bind fun i j hij => ?_
      refine (matches_same _).bind fun _ _ _ => matches_pure ?_
      exact { h with interpreter := hij, answers := rfl }

theorem Twins.advance (h : r.Twins r') (script : Script)
    (hexposed : r.interpreter.exposures = []) :
    Matches Twins (r.advance script) (r'.advance script) := by
  have hstep := h.interpreter.step (script.requests (r.outputs + 1)) hexposed
  unfold Run.advance
  rw [← h.outputs]
  simp only [hstep.countOutputs, hstep.oversized?]
  refine hstep.bind fun i j hij => ?_
  generalize r'.interpreter.step (script.requests (r.outputs + 1)) = step
  have hstepped : Twins
      { r with interpreter := i, outputs := r.outputs + Event.countOutputs step.events }
      { r' with interpreter := j, outputs := r.outputs + Event.countOutputs step.events } :=
    { h with interpreter := hij, outputs := rfl }
  cases Event.oversized? step.events with
  | some digits => exact matches_pure { hstepped with abort := rfl }
  | none =>
    dsimp only
    rw [hij.status]
    split
    · exact matches_pure { hstepped with pauses := congrArg (· + script.pacing.pauses) h.pauses }
    · exact matches_pure hstepped

theorem Twins.round (h : r.Twins r') (script : Script) (hexposed : r.interpreter.exposures = []) :
    Matches Twins (r.round script) (r'.round script) := by
  refine (h.advance script hexposed).bind fun k l hkl => ?_
  rw [awaits, awaits, hkl.interpreter.status, hkl.abort]
  split
  · exact hkl.ask script.exhausted
  · exact matches_pure hkl

theorem Twins.drive (h : r.Twins r') (script : Script) {fuel : Nat} (log log' : Array Event)
    (hlog : List.Forall₂ Event.Alike (log.toList.filter (!·.isTrace))
      (log'.toList.filter (!·.isTrace)))
    (hexposed : ∀ k < fuel, (drive script k r log).1.interpreter.exposures = []) :
    (drive script fuel r log).1.Twins (drive script fuel r' log').1 ∧
      List.Forall₂ Event.Alike ((drive script fuel r log).2.toList.filter (!·.isTrace))
        ((drive script fuel r' log').2.toList.filter (!·.isTrace)) := by
  induction fuel generalizing r r' log log' with
  | zero => exact ⟨h, hlog⟩
  | succ fuel ih =>
    have hround := h.round script (hexposed 0 (Nat.succ_pos fuel))
    by_cases hover : r.isOver = true
    · rw [Run.drive, Run.drive, ← h.isOver_eq, if_pos hover, if_pos hover]
      exact ⟨h, hlog⟩
    · have hnext (k : Nat) : Run.drive script (k + 1) r log =
          Run.drive script k (r.round script).value (log ++ (r.round script).events) := by
        rw [Run.drive, if_neg hover]
      rw [hnext, Run.drive, ← h.isOver_eq, if_neg hover]
      refine ih hround.value _ _ ?_ fun k hk => ?_
      · simp only [Array.toList_appendList, List.filter_append]
        exact List.rel_append hlog hround.events
      · rw [← hnext]
        exact hexposed (k + 1) (Nat.succ_lt_succ hk)

end Laws

end Run

/-- Runs of programs that differ only in the case of letters end alike. -/
theorem Interpreter.matches_run {p q : Program} (h : p.SameButCase q) (i : Interpreter)
    {fuel : Nat} {script : Script}
    (hexposed : ∀ k < fuel, (i.run k script p).value.interpreter.exposures = []) :
    Logged.Matches Run.Twins (i.run fuel script p) (i.run fuel script q) := by
  have hloaded : (i.load p).Twins (i.load q) := ⟨h, rfl, rfl, rfl, rfl, rfl⟩
  have hbegun : Logged.Matches Run.Twins (i.begin p script.answers) (i.begin q script.answers) :=
    hloaded.start.bind fun _ _ hij => Logged.matches_pure ⟨hij, rfl, rfl, rfl, rfl⟩
  obtain ⟨hvalue, hevents⟩ := hbegun.value.drive script (i.begin p script.answers).events.toArray
    (i.begin q script.answers).events.toArray hbegun.events hexposed
  exact ⟨hvalue, hevents⟩

namespace Interpreter

open Logged

/-- The case of letters outside text literals does not tell unless it is exposed.
Programs that differ in it alone are run alike from the same generator: by any
operations, as long as none of them is a step that exposes it, and by any script, as
long as no round does. After each of them the machine, the status, what is waited for
and the generator are the same, and so are all outputs and prompts, but for the line of
a fault; the faults have the same kind, and their messages differ in case only. -/
theorem case_blind_unless_exposed {p q : Program} (h : p.SameButCase q) (i : Interpreter) :
    (∀ os o, (∀ before requests after, os ++ [o] = before ++ .step requests :: after →
        ((i.load p).after before).exposures = []) →
      Matches ReplyTwins (((i.load p).after os).operate o) (((i.load q).after os).operate o)) ∧
    ∀ fuel script, (∀ k < fuel, (i.run k script p).value.interpreter.exposures = []) →
      Matches Run.Twins (i.run fuel script p) (i.run fuel script q) := by
  refine ⟨fun os o hexposed => ?_, fun fuel script hexposed => matches_run h i hexposed⟩
  have hloaded : (i.load p).Twins (i.load q) := ⟨h, rfl, rfl, rfl, rfl, rfl⟩
  have hbefore : ((i.load p).after os).Twins ((i.load q).after os) := by
    refine hloaded.after fun before requests after hos => ?_
    exact hexposed before requests (after ++ [o]) (by rw [hos, List.append_assoc, List.cons_append])
  refine hbefore.operate ?_
  rintro requests rfl
  exact hexposed os requests [] rfl

/-- A loop that asks, decides and prints, in one case and in the other. -/
def askingTwice : Program × Program :=
  ((Program.load ["10 for i = 1 to 2", "20 input \"N?\"; n",
      "30 if n > 1e1 and i = 1 then print \"n:\"; int(n)", "40 next I",
      "50 LET a b"]).toOption.getD .empty,
    (Program.load ["10 FOR I = 1 TO 2", "20 INPUT \"N?\"; N",
      "30 IF N > 1E1 AND I = 1 THEN PRINT \"n:\"; INT(N)", "40 NEXT i",
      "50 let A B"]).toOption.getD .empty)

/-- Both are asked twice, print one line, and end with a fault of the same kind. -/
theorem case_blind_unless_exposed_at_askingTwice :
    let i : Interpreter := { generator := ⟨#[], 0⟩ }
    let script : Script := { answers := ["12.5", "3"] }
    let x := i.run 9 script askingTwice.1
    let y := i.run 9 script askingTwice.2
    Matches Run.Twins x y ∧
    Event.lines x.events = ["n:12", "Error at line 50: Invalid LET syntax: LET a b"] ∧
    Event.lines y.events = ["n:12", "Error at line 50: Invalid LET syntax: let A B"] := by
  intro i script x y
  have hsame : askingTwice.1.SameButCase askingTwice.2 := by decide +kernel
  have hexposed : ∀ k < 9, (i.run k script askingTwice.1).value.interpreter.exposures = [] := by
    decide +kernel
  exact ⟨(case_blind_unless_exposed hsame i).2 9 script hexposed, by decide +kernel,
    by decide +kernel⟩

/-- A condition between quotes that the answer closes, in one case and in the other. -/
def asksBetweenQuotes : Program × Program :=
  ((Program.load ["10 INPUT A", "20 IF A x A = \"+ x +\" OR B THEN PRINT 1"]).toOption.getD .empty,
    (Program.load ["10 INPUT A", "20 IF A X A = \"+ x +\" OR B THEN PRINT 1"]).toOption.getD .empty)

/-- An answer with a quote in it takes a letter of the condition into a text literal,
where its case tells: one condition holds, and the other one faults. No argument of
PRINT is printed as its literal text. -/
theorem case_not_blind_at_asksBetweenQuotes :
    let i : Interpreter := { generator := ⟨#[], 0⟩ }
    let script : Script := { answers := ["+\"+"] }
    asksBetweenQuotes.1.SameButCase asksBetweenQuotes.2 ∧
    (∀ k < 9, .literalText ∉ (i.run k script asksBetweenQuotes.1).value.interpreter.exposures) ∧
    (∀ k < 9, .literalText ∉ (i.run k script asksBetweenQuotes.2).value.interpreter.exposures) ∧
    Event.lines (i.run 9 script asksBetweenQuotes.1).events = ["1"] ∧
    (i.run 9 script asksBetweenQuotes.1).value.interpreter.fault = none ∧
    (i.run 9 script asksBetweenQuotes.2).value.interpreter.fault.map Fault.kind =
      some "CannotEvaluateCondition" := by
  decide +kernel

end Interpreter

end LineBasic
