import LineBasic.Proofs.Notes
import LineBasic.Proofs.Sessions

/-!
The level of detail of an interpreter decides what is seen of it and nothing
else. At a lower level each operation yields the same interpreter, and the same
events but for the notes above that level.

`Interpreter.capped` lowers a level and `Logged.seen` leaves out the notes above
it. The laws `note_capped` to `run_capped` say that the two go together, from a
single note up to a whole run; they hold for every level, so none of them asks
how the levels lie to each other.
-/

namespace LineBasic

namespace Event

def isSeenAt (detail : Nat) : Event → Bool
  | .trace level _ => level ≤ detail
  | _ => true

def isTrace : Event → Bool
  | .trace _ _ => true
  | _ => false

theorem oversized?_filter {p : Event → Bool} (hp : ∀ digits, p (.oversized digits) = true)
    (events : List Event) : oversized? (events.filter p) = oversized? events := by
  induction events with
  | nil => rfl
  | cons e events ih =>
    cases hkeeps : p e with
    | true =>
      rw [List.filter_cons_of_pos hkeeps, oversized?, List.findSome?_cons, ← oversized?, ih]
      rfl
    | false =>
      rw [List.filter_cons_of_neg (by simp [hkeeps]), ih]
      cases e with
      | oversized digits =>
        rw [hp] at hkeeps
        cases hkeeps
      | _ => rfl

end Event

namespace Logged

variable {α β γ δ : Type}

/-- What is seen at a level of detail, the value being mapped. -/
def seen (detail : Nat) (g : α → β) (x : Logged α) : Logged β :=
  ⟨g x.value, x.events.filter (Event.isSeenAt detail)⟩

/-- Steps that are seen one after the other are the steps seen. -/
theorem seen_bind {detail : Nat} {g : α → β} {h : γ → δ} {x : Logged α} {f : α → Logged γ}
    {f' : β → Logged δ} (hf : ∀ a, f' (g a) = (f a).seen detail h) :
    x.seen detail g >>= f' = (x >>= f).seen detail h := by
  simp only [bind, seen, hf, List.filter_append]

end Logged

namespace Interpreter

def atDetail (detail : Nat) (i : Interpreter) : Interpreter := { i with detail := detail }

/-- The interpreter with its level of detail lowered to `detail`, unless it is
lower already. -/
def capped (detail : Nat) (i : Interpreter) : Interpreter := i.atDetail (min detail i.detail)

section Laws

variable (d : Nat) (requests : List Request) (i : Interpreter)

theorem program_capped : (i.capped d).program = i.program := rfl

theorem machine_capped : (i.capped d).machine = i.machine := rfl

theorem status_capped : (i.capped d).status = i.status := rfl

theorem pending_capped : (i.capped d).pending = i.pending := rfl

theorem note_capped (n : Note) : (i.capped d).note n = (i.note n).seen d id := by
  have hlevel : n.level ≤ (i.capped d).detail ↔ n.level ≤ d ∧ n.level ≤ i.detail := Nat.le_min
  unfold note
  by_cases hd : n.level ≤ d <;> by_cases hi : n.level ≤ i.detail <;>
    simp [hlevel, hd, hi, Logged.seen, Logged.event, Event.isSeenAt, pure]

theorem noteAll_capped (ns : List Note) :
    (i.capped d).noteAll ns = (i.noteAll ns).seen d id := by
  induction ns with
  | nil => rfl
  | cons n ns ih =>
    rw [noteAll, note_capped]
    exact Logged.seen_bind fun _ => ih

theorem halt_capped (reason : HaltReason) :
    (i.capped d).halt reason = (i.halt reason).seen d (capped d) := by
  rw [halt, note_capped]
  exact Logged.seen_bind fun _ => rfl

theorem stop_capped : (i.capped d).stop = i.stop.seen d (capped d) := by
  let k : Interpreter := { i with machine := { i.machine with running := false } }
  change (if k.status = .running ∨ k.status = .waiting then (k.capped d).halt .stopped
    else pure (k.capped d)) = Logged.seen d (capped d)
      (if k.status = .running ∨ k.status = .waiting then k.halt .stopped else pure k)
  split
  · exact halt_capped d k .stopped
  · rfl

theorem handle_capped : (i.capped d).handle requests = (i.handle requests).seen d (capped d) := by
  induction requests generalizing i with
  | nil => rfl
  | cons r rest ih =>
    cases r with
    | «break» => exact ih i.requestBreak
    | stop =>
      rw [handle, stop_capped]
      exact Logged.seen_bind fun k => ih k

theorem output_capped (line : String) :
    (i.capped d).output requests line = (i.output requests line).seen d (capped d) := by
  have hevent : Logged.event (.output line) = (Logged.event (.output line)).seen d id := rfl
  rw [output, hevent]
  exact Logged.seen_bind fun _ => handle_capped d requests i

theorem fail_capped (line : Nat) (f : Fault) :
    (i.capped d).fail requests line f = (i.fail requests line f).seen d (capped d) := by
  unfold fail
  refine (congrArg (· >>= _) (note_capped d { i with fault := some f } _)).trans ?_
  refine Logged.seen_bind fun _ => ?_
  refine (congrArg (· >>= _) (output_capped d requests { i with fault := some f } _)).trans ?_
  exact Logged.seen_bind fun k => halt_capped d k .faulted

theorem moveTo_capped (index : Nat) :
    (i.capped d).moveTo index = (i.moveTo index).seen d (capped d) := by
  change (if i.program.size ≤ index then ((i.placed index).capped d).halt .programEnd
    else pure ((i.placed index).capped d)) = Logged.seen d (capped d)
      (if i.program.size ≤ index then (i.placed index).halt .programEnd
        else pure (i.placed index))
  split
  · exact halt_capped d (i.placed index) .programEnd
  · rfl

theorem follow_capped (line : Nat) (t : Transfer) :
    (i.capped d).follow requests line t = (i.follow requests line t).seen d (capped d) := by
  cases t with
  | advance => exact moveTo_capped d i _
  | moveTo index => exact moveTo_capped d i index
  | finish => exact halt_capped d i .endStatement
  | await name prompt => rfl
  | jump target =>
    cases target with
    | oversized digits => rfl
    | line number =>
      simp only [follow, program_capped]
      cases i.program.indexOf? number with
      | none => exact fail_capped d requests i line _
      | some index =>
        simp only [note_capped]
        exact Logged.seen_bind fun _ => moveTo_capped d i index

theorem outputAll_capped (lines : List String) : (i.capped d).outputAll requests lines =
    (i.outputAll requests lines).seen d (capped d) := by
  induction lines generalizing i with
  | nil => rfl
  | cons line lines ih =>
    rw [outputAll, output_capped]
    exact Logged.seen_bind fun k => ih k

theorem perform_capped (s : Statement) :
    (i.capped d).perform requests s = (i.perform requests s).seen d (capped d) := by
  have hexecution : (i.capped d).execution s = i.execution s := rfl
  unfold perform
  rw [hexecution]
  obtain ⟨result, e⟩ := i.execution s
  let k : Interpreter := { i with machine := e.machine, generator := e.generator }
  refine (congrArg (· >>= _) (noteAll_capped d k _)).trans ?_
  refine Logged.seen_bind fun _ => ?_
  refine (congrArg (· >>= _) (outputAll_capped d requests k _)).trans ?_
  refine Logged.seen_bind fun k => ?_
  cases result with
  | error f => exact fail_capped d requests k s.number f
  | ok transfer => exact follow_capped d requests k s.number transfer

theorem step_capped : (i.capped d).step requests = (i.step requests).seen d (capped d) := by
  unfold step
  rw [status_capped, machine_capped, program_capped]
  by_cases hstatus : i.status ≠ .running
  · rw [if_pos hstatus, if_pos hstatus]
    rfl
  rw [if_neg hstatus, if_neg hstatus]
  by_cases hon : (!i.machine.running) = true
  · rw [if_pos hon, if_pos hon]
    exact halt_capped d i .stopped
  rw [if_neg hon, if_neg hon]
  by_cases hbreak : i.machine.breakRequested = true
  · rw [if_pos hbreak, if_pos hbreak, output_capped]
    exact Logged.seen_bind fun k => halt_capped d k .broken
  rw [if_neg hbreak, if_neg hbreak]
  cases i.program.statementAt? i.machine.place with
  | none => exact halt_capped d i .programEnd
  | some s => exact perform_capped d requests i s

theorem start_capped : (i.capped d).start = i.start.seen d (capped d) := by
  unfold start
  rw [note_capped]
  exact Logged.seen_bind fun _ => rfl

theorem resume_capped (answer : String) :
    (i.capped d).resume answer = (i.resume answer).seen d (Prod.map id (capped d)) := by
  unfold resume
  rw [status_capped, pending_capped]
  cases hstatus : i.status <;> cases hpending : i.pending <;> try rfl
  next p =>
    simp only [machine_capped]
    cases i.machine.environment.set p.name (answerValue (Text.trim answer.toList)) with
    | error f => rfl
    | ok environment =>
      let k : Interpreter := { i with
        pending := none
        machine := { i.machine with environment := environment }
        status := .running }
      refine (congrArg (· >>= _) (note_capped d k _)).trans ?_
      refine Logged.seen_bind fun _ => ?_
      refine (congrArg (· >>= _) (moveTo_capped d k _)).trans ?_
      exact Logged.seen_bind fun _ => rfl

/-- Whatever is done to an interpreter, a lower level of detail only leaves notes
out. -/
theorem operate_capped (o : Operation) :
    (i.capped d).operate o = (i.operate o).seen d (Prod.map id (capped d)) := by
  cases o with
  | load program => rfl
  | start program =>
    cases program with
    | none => exact (congrArg (· >>= _) (start_capped d i)).trans (Logged.seen_bind fun _ => rfl)
    | some p =>
      exact (congrArg (· >>= _) (start_capped d (i.load p))).trans (Logged.seen_bind fun _ => rfl)
  | step requests =>
    exact (congrArg (· >>= _) (step_capped d requests i)).trans (Logged.seen_bind fun _ => rfl)
  | resume answer => exact resume_capped d i answer
  | requestBreak => rfl
  | stop => exact (congrArg (· >>= _) (stop_capped d i)).trans (Logged.seen_bind fun _ => rfl)

end Laws

end Interpreter

namespace Run

/-- The run with the level of detail of its interpreter lowered. -/
def capped (detail : Nat) (r : Run) : Run :=
  { r with interpreter := r.interpreter.capped detail }

section Laws

variable (d : Nat) (script : Script) (r : Run)

theorem countOutputs_seen (events : List Event) :
    Event.countOutputs (events.filter (Event.isSeenAt d)) = Event.countOutputs events := by
  rw [Event.countOutputs, Event.countOutputs, List.countP_filter]
  refine List.countP_congr fun e _ => ?_
  cases e <;> simp [Event.isSeenAt]

theorem answer_capped (text : String) :
    (r.capped d).answer text = (r.answer text).seen d (capped d) := by
  refine (congrArg (· >>= _) (Interpreter.resume_capped d r.interpreter text)).trans ?_
  refine Logged.seen_bind fun reply => ?_
  obtain ⟨_ | _ | f, i⟩ := reply <;> rfl

theorem ask_capped (exhausted : Exhausted) :
    (r.capped d).ask exhausted = (r.ask exhausted).seen d (capped d) := by
  have hprompt : Logged.event (.prompt (r.capped d).prompt) =
      (Logged.event (.prompt r.prompt)).seen d id := rfl
  refine (congrArg (· >>= _) hprompt).trans (Logged.seen_bind fun _ => ?_)
  have hanswers : (r.capped d).answers = r.answers := rfl
  rw [hanswers]
  cases r.answers with
  | cons text rest => exact answer_capped d { r with answers := rest } text
  | nil =>
    cases exhausted with
    | blank => exact answer_capped d r ""
    | stop farewell =>
      have hfarewell : (⟨(), farewell.map .output⟩ : Logged Unit) =
          (⟨(), farewell.map .output⟩ : Logged Unit).seen d id := by
        have hseen : ∀ e ∈ farewell.map Event.output, e.isSeenAt d = true := by
          simp [Event.isSeenAt]
        rw [Logged.seen, List.filter_eq_self.mpr hseen]
      refine (congrArg (· >>= _) (Interpreter.stop_capped d r.interpreter)).trans ?_
      refine Logged.seen_bind fun i => ?_
      refine (congrArg (· >>= _) hfarewell).trans ?_
      exact Logged.seen_bind fun _ => rfl

theorem advance_capped : (r.capped d).advance script = (r.advance script).seen d (capped d) := by
  have hstep : (r.capped d).interpreter.step (script.requests ((r.capped d).outputs + 1)) =
      (r.interpreter.step (script.requests (r.outputs + 1))).seen d (Interpreter.capped d) :=
    Interpreter.step_capped d _ _
  unfold advance
  simp only [hstep]
  generalize r.interpreter.step (script.requests (r.outputs + 1)) = step
  have hcount : Event.countOutputs (step.seen d (Interpreter.capped d)).events =
      Event.countOutputs step.events := countOutputs_seen d _
  have hoversized : Event.oversized? (step.seen d (Interpreter.capped d)).events =
      Event.oversized? step.events := Event.oversized?_filter (fun _ => rfl) _
  simp only [hcount, hoversized]
  refine Logged.seen_bind fun i => ?_
  rw [Interpreter.status_capped]
  cases Event.oversized? step.events with
  | some digits => rfl
  | none =>
    dsimp only
    split <;> rfl

theorem round_capped : (r.capped d).round script = (r.round script).seen d (capped d) := by
  refine (congrArg (· >>= _) (advance_capped d script r)).trans (Logged.seen_bind fun r => ?_)
  have hawaits : (r.capped d).awaits = r.awaits := rfl
  rw [hawaits]
  split
  · exact ask_capped d r script.exhausted
  · rfl

theorem drive_capped (fuel : Nat) (log log' : Array Event)
    (hlog : log'.toList = log.toList.filter (Event.isSeenAt d)) :
    (drive script fuel (r.capped d) log').1 = (drive script fuel r log).1.capped d ∧
      (drive script fuel (r.capped d) log').2.toList =
        (drive script fuel r log).2.toList.filter (Event.isSeenAt d) := by
  induction fuel generalizing r log log' with
  | zero => exact ⟨rfl, hlog⟩
  | succ fuel ih =>
    have hover : (r.capped d).isOver = r.isOver := rfl
    simp only [drive, hover]
    split
    · exact ⟨rfl, hlog⟩
    · rw [round_capped]
      refine ih _ _ _ ?_
      simp only [Array.toList_appendList, List.filter_append, hlog, Logged.seen]

end Laws

end Run

theorem Interpreter.begin_capped (d : Nat) (i : Interpreter) (program : Program)
    (answers : List String) :
    (i.capped d).begin program answers = (i.begin program answers).seen d (Run.capped d) :=
  (congrArg (· >>= _) (start_capped d (i.load program))).trans (Logged.seen_bind fun _ => rfl)

theorem Interpreter.run_capped (d : Nat) (i : Interpreter) (fuel : Nat) (script : Script)
    (program : Program) :
    (i.capped d).run fuel script program = (i.run fuel script program).seen d (Run.capped d) := by
  let begun := i.begin program script.answers
  have hdrive := Run.drive_capped d script begun.value fuel begun.events.toArray
    (begun.seen d (Run.capped d)).events.toArray rfl
  unfold run
  rw [begin_capped]
  exact (Logged.mk.injEq ..).mpr hdrive

namespace Interpreter

inductive Call where
  | load (lines : List String)
  | operate (o : Operation)
  | run (fuel : Nat) (script : Script) (program : Program)

inductive CallError where
  | load (e : Abort)
  | resume (e : ResumeError)
  | run (e : Abort)
deriving DecidableEq, Repr

structure Reply where
  interpreter : Interpreter
  error : Option CallError := none
  answers : List String := []
  pauses : Nat := 0
deriving DecidableEq

def Reply.atDetail (detail : Nat) (r : Reply) : Reply :=
  { r with interpreter := r.interpreter.atDetail detail }

def reply (i : Interpreter) : Call → Logged Reply
  | .load lines =>
    match Program.load lines with
    | .ok program => return { interpreter := i.load program }
    | .error e => return { interpreter := i, error := some (.load e) }
  | .operate o => do
    let (error, i) ← i.operate o
    return { interpreter := i, error := error.map .resume }
  | .run fuel script program => do
    let r ← i.run fuel script program
    return {
      interpreter := r.interpreter
      error := r.abort.map .run
      answers := r.answers
      pauses := r.pauses }

def replies : List Call → Interpreter → List (Logged Reply)
  | [], _ => []
  | c :: cs, i => i.reply c :: replies cs (i.reply c).value.interpreter

section Calls

variable (d : Nat) (i : Interpreter)

theorem atDetail_of_detail {i : Interpreter} {d : Nat} (h : i.detail = d) : i.atDetail d = i := by
  rw [← h]
  rfl

theorem reply_capped (c : Call) :
    (i.capped d).reply c = (i.reply c).seen d fun r => r.atDetail (min d r.interpreter.detail) := by
  cases c with
  | load lines =>
    simp only [reply]
    cases Program.load lines <;> rfl
  | operate o =>
    exact (congrArg (· >>= _) (operate_capped d i o)).trans (Logged.seen_bind fun _ => rfl)
  | run fuel script program =>
    exact (congrArg (· >>= _) (run_capped d i fuel script program)).trans
      (Logged.seen_bind fun _ => rfl)

theorem detail_reply (c : Call) : (i.reply c).value.interpreter.detail = i.detail := by
  cases c with
  | load lines =>
    simp only [reply]
    cases Program.load lines <;> rfl
  | operate o => exact (drawsOn_operate i o).detail
  | run fuel script program => exact (drawsOn_run i fuel script program).detail

theorem isListed_reply (c : Call) : (i.reply c).IsListed := by
  cases c with
  | load lines =>
    simp only [reply]
    cases Program.load lines <;> exact Logged.isListed_pure _
  | operate o => exact Logged.isListed_bind (isListed_operate i o) (Logged.isListed_pure _)
  | run fuel script program =>
    exact Logged.isListed_bind (isListed_run i fuel script program) (Logged.isListed_pure _)

theorem isListed_replies (cs : List Call) : ∀ x ∈ i.replies cs, x.IsListed := by
  induction cs generalizing i with
  | nil => simp [replies]
  | cons c cs ih => exact List.forall_mem_cons.mpr ⟨isListed_reply i c, ih _⟩

/-- No call changes the level of detail, so at a lower one all replies are seen
from there. -/
theorem replies_atDetail {e : Nat} (hd : d ≤ e) (cs : List Call) :
    (i.atDetail d).replies cs =
      ((i.atDetail e).replies cs).map (Logged.seen d (Reply.atDetail d)) := by
  induction cs generalizing i with
  | nil => rfl
  | cons c cs ih =>
    have hcapped : (i.atDetail e).capped d = i.atDetail d := by
      simp [capped, atDetail, Nat.min_eq_left hd]
    have hdetail : ((i.atDetail e).reply c).value.interpreter.detail = e := detail_reply _ c
    have hcall : (i.atDetail d).reply c =
        ((i.atDetail e).reply c).seen d (Reply.atDetail d) := by
      rw [← hcapped, reply_capped]
      simp only [Logged.seen, hdetail, Nat.min_eq_left hd]
    have hsame := atDetail_of_detail hdetail
    rw [replies, replies, List.map_cons, hcall]
    refine congrArg _ ((ih ((i.atDetail e).reply c).value.interpreter).trans ?_)
    rw [hsame]

end Calls

/-- A reply without the level of detail and without the notes. -/
def untraced (x : Logged Reply) : Logged Reply :=
  ⟨x.value.atDetail 0, x.events.filter fun e => !e.isTrace⟩

theorem untraced_seen (d : Nat) (x : Logged Reply) :
    untraced (x.seen d (Reply.atDetail d)) = untraced x := by
  have hnotes (e : Event) : (!e.isTrace && e.isSeenAt d) = !e.isTrace := by
    cases e <;> simp [Event.isTrace, Event.isSeenAt]
  simp only [untraced, Logged.seen, Reply.atDetail, atDetail, List.filter_filter, hnotes]

/-- Nothing listed is left out at the third level. -/
theorem seen_of_isListed {x : Logged Reply} (h : x.IsListed) {d : Nat} :
    (x.seen 3 (Reply.atDetail 3)).seen d (Reply.atDetail d) = x.seen d (Reply.atDetail d) := by
  have hall : x.events.filter (Event.isSeenAt 3) = x.events := by
    refine List.filter_eq_self.mpr fun e he => ?_
    have hlisted := h e he
    cases e with
    | trace level text => exact decide_eq_true (Note.IsListed.level_le hlisted)
    | output | prompt | command | oversized => rfl
  simp only [Logged.seen, Reply.atDetail, atDetail, hall]

/-- Whatever a host calls, the replies at any level of detail are those at the
third one, with the same outputs, prompts, errors and interpreters after each call,
and their notes are the notes there without those of a higher level. Any two levels
differ in nothing else, and every note is a listed one. -/
theorem detail_only_shows (i : Interpreter) (cs : List Call) :
    (∀ d, (i.atDetail d).replies cs =
      ((i.atDetail 3).replies cs).map (Logged.seen d (Reply.atDetail d))) ∧
    (∀ d e, ((i.atDetail d).replies cs).map untraced = ((i.atDetail e).replies cs).map untraced) ∧
    ∀ d, ∀ x ∈ (i.atDetail d).replies cs, x.IsListed := by
  have hthird (d : Nat) : (i.atDetail d).replies cs =
      ((i.atDetail 3).replies cs).map (Logged.seen d (Reply.atDetail d)) := by
    -- Both levels are seen from one that is above them.
    rw [replies_atDetail d i (Nat.le_max_left d 3), replies_atDetail 3 i (Nat.le_max_right d 3),
      List.map_map]
    exact List.map_congr_left fun x hx => (seen_of_isListed (isListed_replies _ cs x hx)).symm
  have huntraced (d : Nat) : ((i.atDetail d).replies cs).map untraced =
      ((i.atDetail 3).replies cs).map untraced := by
    rw [hthird d, List.map_map]
    exact List.map_congr_left fun x _ => untraced_seen d x
  exact ⟨hthird, fun d e => (huntraced d).trans (huntraced e).symm,
    fun d => isListed_replies (i.atDetail d) cs⟩

/-- A program that asks is loaded, started, answered, and stopped after a jump. -/
def askingLoop : List Call := [
  .load ["10 INPUT A", "20 IF A > 1 THEN 10"], .operate (.start none), .operate (.step []),
  .operate (.resume "2"), .operate (.step []), .operate .stop]

/-- All its notes, and those that are left at the second and the first level. -/
theorem detail_only_shows_at_askingLoop :
    let i : Interpreter := { generator := ⟨#[], 0⟩ }
    let notes (d : Nat) : List (List Event) := ((i.atDetail d).replies askingLoop).map (·.events)
    notes 3 = [[], [.trace 1 "run: 2 statements"], [.trace 2 "10 INPUT A"],
      [.trace 2 "input A = '2'"],
      [.trace 2 "20 IF A > 1 THEN 10", .trace 3 "condition 'A > 1' -> '2 > 1'",
        .trace 3 "condition result True", .trace 3 "jump 20 -> 10"],
      [.trace 1 "halt: stopped"]] ∧
    notes 2 = [[], [.trace 1 "run: 2 statements"], [.trace 2 "10 INPUT A"],
      [.trace 2 "input A = '2'"], [.trace 2 "20 IF A > 1 THEN 10"], [.trace 1 "halt: stopped"]] ∧
    notes 1 = [[], [.trace 1 "run: 2 statements"], [], [], [], [.trace 1 "halt: stopped"]] := by
  intro i notes
  have hall := (detail_only_shows i askingLoop).1
  simp only [notes, hall 2, hall 1, List.map_map]
  refine ⟨by decide +kernel, by decide +kernel, by decide +kernel⟩

end Interpreter

end LineBasic
