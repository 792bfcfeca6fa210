import LineBasic.Proofs.Steps
import LineBasic.Session

/-!
A session has one interpreter for all its runs, and earlier runs leave variables,
calls, loops, faults, requests and a status behind in it. None of that reaches
the next RUN: it is the run of a new interpreter, and only the stored lines and
the random numbers drawn so far come from the history. The stored lines are those
that the typed ones ask for, whatever was run in between, and the random numbers
are still those of the first generator.
-/

namespace LineBasic

namespace Interpreter

structure DrawsOn (i k : Interpreter) : Prop where
  detail : k.detail = i.detail
  generator : ∃ n, k.generator = i.generator.skip n

section DrawsOn

variable {i j k : Interpreter} {requests : List Request} {lines : List String}

theorem drawsOn_of_same (hdetail : k.detail = i.detail) (hgenerator : k.generator = i.generator) :
    i.DrawsOn k :=
  ⟨hdetail, 0, hgenerator⟩

theorem DrawsOn.trans (hij : i.DrawsOn j) (hjk : j.DrawsOn k) : i.DrawsOn k := by
  obtain ⟨n, hn⟩ := hij.generator
  obtain ⟨n', hn'⟩ := hjk.generator
  exact ⟨hjk.detail.trans hij.detail, n + n', by rw [hn', hn, Generator.skip_add]⟩

theorem drawsOn_asked (requests : List Request) (i : Interpreter) :
    i.DrawsOn (i.asked requests) := by
  simp only [asked]
  split <;> exact drawsOn_of_same rfl rfl

theorem drawsOn_moveTo (index : Nat) (i : Interpreter) : i.DrawsOn (i.moveTo index).value := by
  rw [value_moveTo]
  split <;> exact drawsOn_of_same rfl rfl

theorem drawsOn_acted (s : Statement) (effect : Effect) (i : Interpreter) :
    i.DrawsOn (i.acted s effect) :=
  ⟨rfl, i.exists_skip_outcome s⟩

theorem StepsTo.drawsOn (h : i.StepsTo requests k lines) : i.DrawsOn k := by
  cases h with
  | rest | stopped | behind => exact drawsOn_of_same rfl rfl
  | broken => exact (drawsOn_asked requests i).trans (drawsOn_of_same rfl rfl)
  | @fault s => exact ⟨rfl, i.exists_skip_outcome s⟩
  | @print s effect =>
    exact ((drawsOn_acted s effect i).trans (drawsOn_asked requests _)).trans (drawsOn_moveTo _ _)
  | @move s effect index => exact (drawsOn_acted s effect i).trans (drawsOn_moveTo _ _)
  | @finish s effect | @await s effect =>
    exact (drawsOn_acted s effect i).trans (drawsOn_of_same rfl rfl)
  | @oversized s effect => exact drawsOn_acted s effect i

theorem ResumesTo.drawsOn {answer : String} {error : Option ResumeError}
    (h : i.ResumesTo answer error k) : i.DrawsOn k := by
  cases h with
  | refused | unbindable => exact drawsOn_of_same rfl rfl
  | @bound p environment =>
    exact .trans (j := i.answered environment) (drawsOn_of_same rfl rfl) (drawsOn_moveTo _ _)

/-- No operation seeds the generator, not even a start. -/
theorem drawsOn_operate (i : Interpreter) (o : Operation) : i.DrawsOn (i.operate o).value.2 := by
  cases o with
  | load program => exact drawsOn_of_same rfl rfl
  | start program => cases program <;> exact drawsOn_of_same rfl rfl
  | step requests => exact (stepsTo_step requests i).drawsOn
  | resume answer => exact (resumesTo_resume answer i).drawsOn
  | requestBreak => exact drawsOn_of_same rfl rfl
  | stop =>
    change i.DrawsOn i.stop.value
    rw [← asked_stop]
    exact drawsOn_asked [.stop] i

theorem drawsOn_after (i : Interpreter) (os : List Operation) : i.DrawsOn (i.after os) := by
  induction os generalizing i with
  | nil => exact drawsOn_of_same rfl rfl
  | cons o os ih => exact (drawsOn_operate i o).trans (ih _)

theorem drawsOn_run (i : Interpreter) (fuel : Nat) (script : Script) (program : Program) :
    i.DrawsOn (i.run fuel script program).value.interpreter := by
  obtain ⟨os, _, hrun⟩ := i.exists_operations_run fuel script program
  rw [hrun]
  exact (drawsOn_operate i _).trans (drawsOn_after _ os)

end DrawsOn

/-- A start leaves nothing of what was done with an interpreter before, but the
numbers drawn. -/
theorem run_eq_fresh (i : Interpreter) (fuel : Nat) (script : Script) (program : Program) :
    i.run fuel script program =
      ({ detail := i.detail, generator := i.generator } : Interpreter).run fuel script program :=
  rfl

end Interpreter

inductive Incident where
  | typed (fuel : Nat) (feed : Feed) (line : String)
  | asked (r : Request)
deriving DecidableEq, Repr

def Session.Entry.edit (lines : Std.ExtTreeMap Nat String compare) :
    Entry → Std.ExtTreeMap Nat String compare
  | .store number code => if code.isEmpty then lines.erase number else lines.insert number code
  | .new => ∅
  | _ => lines

def Incident.edit (lines : Std.ExtTreeMap Nat String compare) :
    Incident → Std.ExtTreeMap Nat String compare
  | .typed _ _ line => (Session.Entry.ofText line).edit lines
  | .asked _ => lines

namespace Session

def undergo (s : Session) : Incident → Session
  | .typed fuel feed line => (s.handle fuel feed line).value.session
  | .asked .break => { s with interpreter := s.interpreter.requestBreak }
  | .asked .stop => s.stop.value

section History

variable (fuel : Nat) (feed : Feed) (s : Session)

theorem run_of_load_fault {f : Fault} (hload : Program.load s.source = .error (.fault f)) :
    s.run fuel feed =
      ⟨{ session := s, feed := feed }, [.output ("Error: " ++ f.message), .output "READY"]⟩ := by
  simp only [run, hload]
  rfl

theorem run_of_load_oversized {digits : Nat}
    (hload : Program.load s.source = .error (.oversized digits)) :
    s.run fuel feed = ⟨{ session := s, feed := feed, abort := some (.oversized digits) }, []⟩ := by
  simp only [run, hload]
  rfl

theorem run_of_load_ok {program : Program} (hload : Program.load s.source = .ok program) :
    let run := s.interpreter.run fuel { answers := feed.available, exhausted := feed.exhausted }
      program
    s.run fuel feed =
      ⟨{ session := { s with interpreter := run.value.interpreter }
         feed := feed.withAvailable run.value.answers
         abort := run.value.abort },
        run.events ++ if run.value.abort = none then [.output "READY"] else []⟩ := by
  intro r
  simp only [run, hload]
  change (r >>= s.conclude feed) = _
  cases habort : r.value.abort with
  | none =>
    simp only [bind, conclude, habort]
    rfl
  | some e =>
    simp only [bind, conclude, habort]
    exact congrArg (Logged.mk _) rfl

/-- A run keeps the stored lines, and of the interpreter what outlives a start. -/
theorem run_keeps : (s.run fuel feed).value.session.lines = s.lines ∧
    s.interpreter.DrawsOn (s.run fuel feed).value.session.interpreter := by
  cases hload : Program.load s.source with
  | error e =>
    cases e with
    | fault f =>
      rw [run_of_load_fault fuel feed s hload]
      exact ⟨rfl, Interpreter.drawsOn_of_same rfl rfl⟩
    | oversized digits =>
      rw [run_of_load_oversized fuel feed s hload]
      exact ⟨rfl, Interpreter.drawsOn_of_same rfl rfl⟩
  | ok program =>
    rw [run_of_load_ok fuel feed s hload]
    exact ⟨rfl, Interpreter.drawsOn_run _ _ _ _⟩

/-- What a typed line does to the stored lines does not depend on what was run. -/
theorem handle_keeps (line : String) :
    (s.handle fuel feed line).value.session.lines = (Entry.ofText line).edit s.lines ∧
      s.interpreter.DrawsOn (s.handle fuel feed line).value.session.interpreter := by
  unfold handle
  cases Entry.ofText line with
  | store number code =>
    simp only [Logged.value_pure, store, Entry.edit]
    split <;> exact ⟨rfl, Interpreter.drawsOn_of_same rfl rfl⟩
  | run => exact run_keeps fuel feed s
  | nothing | list | new | exit | unknown | oversized => exact ⟨rfl, Interpreter.drawsOn_of_same rfl rfl⟩

theorem undergo_keeps (what : Incident) : (s.undergo what).lines = what.edit s.lines ∧
    s.interpreter.DrawsOn (s.undergo what).interpreter := by
  cases what with
  | typed fuel feed line => exact handle_keeps fuel feed s line
  | asked request =>
    cases request with
    | «break» => exact ⟨rfl, Interpreter.drawsOn_operate _ .requestBreak⟩
    | stop => exact ⟨rfl, Interpreter.drawsOn_operate _ .stop⟩

theorem history_keeps (history : List Incident) :
    (history.foldl undergo s).lines = history.foldl Incident.edit s.lines ∧
      s.interpreter.DrawsOn (history.foldl undergo s).interpreter := by
  induction history generalizing s with
  | nil => exact ⟨rfl, Interpreter.drawsOn_of_same rfl rfl⟩
  | cons what history ih =>
    obtain ⟨hlines, hdraws⟩ := undergo_keeps s what
    obtain ⟨hlines', hdraws'⟩ := ih (s.undergo what)
    exact ⟨by rw [List.foldl_cons, hlines', hlines]; rfl, hdraws.trans hdraws'⟩

end History

/-- The run of stored lines on a new interpreter with this level of detail and
this generator. -/
def freshRun (fuel : Nat) (feed : Feed) (detail : Nat) (generator : Generator)
    (source : List String) : Except Abort (Logged Run) := do
  let program ← Program.load source
  let i : Interpreter := { detail := detail, generator := generator }
  return i.run fuel { answers := feed.available, exhausted := feed.exhausted } program

section Fresh

variable {fuel detail : Nat} {feed : Feed} {generator : Generator} {source : List String}

theorem load_of_freshRun_error {e : Abort}
    (h : freshRun fuel feed detail generator source = .error e) :
    Program.load source = .error e := by
  unfold freshRun at h
  cases hload : Program.load source with
  | error e' =>
    rw [hload] at h
    cases h
    rfl
  | ok program =>
    rw [hload] at h
    cases h

theorem exists_of_freshRun_ok {run : Logged Run}
    (h : freshRun fuel feed detail generator source = .ok run) :
    ∃ program, Program.load source = .ok program ∧
      run = ({ detail := detail, generator := generator } : Interpreter).run fuel
        { answers := feed.available, exhausted := feed.exhausted } program := by
  unfold freshRun at h
  cases hload : Program.load source with
  | error e =>
    rw [hload] at h
    cases h
  | ok program =>
    rw [hload] at h
    cases h
    exact ⟨program, rfl, rfl⟩

end Fresh

/-- Whatever happened to a session, RUN is then the run of a new interpreter with
the generator that the session has reached, which is still the first one, and
with READY behind it. If the stored lines are no program, RUN says so and leaves
the session as it is, and so it does if loading them breaks off. -/
theorem run_is_fresh (detail : Nat) (generator : Generator) (history : List Incident)
    (fuel : Nat) (feed : Feed) (line : String) (hline : Entry.ofText line = .run) :
    let new : Session := { interpreter := { detail := detail, generator := generator } }
    let s := history.foldl undergo new
    let reply := s.handle fuel feed line
    s.lines = history.foldl Incident.edit ∅ ∧
    (∃ n, s.interpreter.generator = generator.skip n) ∧
    (∀ f, freshRun fuel feed detail s.interpreter.generator s.source = .error (.fault f) →
      reply =
        ⟨{ session := s, feed := feed }, [.output ("Error: " ++ f.message), .output "READY"]⟩) ∧
    (∀ digits,
      freshRun fuel feed detail s.interpreter.generator s.source = .error (.oversized digits) →
      reply = ⟨{ session := s, feed := feed, abort := some (.oversized digits) }, []⟩) ∧
    (∀ run, freshRun fuel feed detail s.interpreter.generator s.source = .ok run →
      reply.value = {
        session := { s with interpreter := run.value.interpreter }
        feed := feed.withAvailable run.value.answers
        abort := run.value.abort } ∧
      (run.value.abort = none → reply.events = run.events ++ [.output "READY"])) := by
  intro new s reply
  obtain ⟨hlines, hdetail, hgenerator⟩ := history_keeps new history
  have hreply : reply = s.run fuel feed := by simp only [reply, handle, hline]
  refine ⟨hlines, hgenerator, fun f hfresh => ?_, fun digits hfresh => ?_, fun run hfresh => ?_⟩
  · rw [hreply]
    exact run_of_load_fault fuel feed s (load_of_freshRun_error hfresh)
  · rw [hreply]
    exact run_of_load_oversized fuel feed s (load_of_freshRun_error hfresh)
  · obtain ⟨program, hload, rfl⟩ := exists_of_freshRun_ok hfresh
    have hok := run_of_load_ok fuel feed s hload
    rw [s.interpreter.run_eq_fresh, hdetail, ← hreply] at hok
    rw [hok]
    exact ⟨rfl, fun habort => congrArg _ (if_pos habort)⟩

/-- A variable is bound, the run is stopped while it asks, the line that bound the
variable is deleted, and a break is asked for. -/
def interruptedSession : List Incident :=
  let feed : Feed := { answers := some [], exhausted := .stop farewell }
  ["10 LET B = 1", "20 INPUT A", "30 PRINT A", "RUN", "10"].map (.typed 9 feed) ++
    [.asked .break]

/-- The next RUN is answered, and knows nothing of that variable or that break. -/
theorem run_is_fresh_at_interruptedSession :
    let new : Session := { interpreter := { generator := ⟨#[], 0⟩ } }
    let s := interruptedSession.foldl undergo new
    let reply := s.handle 9 { answers := some ["7", "8"] } "run on"
    s.interpreter.machine.breakRequested = true ∧
    s.interpreter.machine.environment.get? "B" = some (.number 1) ∧
    s.source = ["20 INPUT A", "30 PRINT A"] ∧
    reply.events = [.prompt "", .output "7", .output "READY"] ∧
    reply.value.session.interpreter.machine.environment.get? "B" = none ∧
    reply.value.feed.answers = some ["8"] := by
  intro new s reply
  have hline : Entry.ofText "run on" = .run := by decide +kernel
  let fresh := freshRun 9 { answers := some ["7", "8"] } 0 s.interpreter.generator s.source
  have hshown : fresh.toOption.map (fun run => (run.events, run.value.abort, run.value.answers)) =
      some ([.prompt "", .output "7"], none, ["8"]) := by decide +kernel
  have hbound : fresh.toOption.map (fun run =>
      run.value.interpreter.machine.environment.get? "B") = some none := by decide +kernel
  have hbefore : s.interpreter.machine.breakRequested = true ∧
      s.interpreter.machine.environment.get? "B" = some (.number 1) ∧
      s.source = ["20 INPUT A", "30 PRINT A"] := by decide +kernel
  cases hfresh : fresh with
  | error f =>
    rw [hfresh] at hshown
    cases hshown
  | ok run =>
    rw [hfresh] at hshown hbound
    obtain ⟨hevents, habort, hanswers⟩ : run.events = [.prompt "", .output "7"] ∧
        run.value.abort = none ∧ run.value.answers = ["8"] := by
      simpa using Option.some.inj hshown
    obtain ⟨-, -, -, -, hrun⟩ := run_is_fresh 0 ⟨#[], 0⟩ interruptedSession 9
      { answers := some ["7", "8"] } "run on" hline
    obtain ⟨hvalue, hready⟩ := hrun run hfresh
    have hvalue : reply.value = _ := hvalue
    have hready : reply.events = _ := hready habort
    rw [hready, hvalue, hevents]
    exact ⟨hbefore.1, hbefore.2.1, hbefore.2.2, rfl, Option.some.inj hbound,
      congrArg some hanswers⟩

end Session

end LineBasic
