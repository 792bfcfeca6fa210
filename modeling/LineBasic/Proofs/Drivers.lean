import LineBasic.Proofs.Termination

/-!
The run loop is one of many hosts, and all of them obtain the same. A host may
drive an interpreter itself: it steps it and gives it answers in whatever order
it likes, as long as it answers only what waits. At each moment one of the two
moves carries the run on, and the other one is refused or does nothing, so that
what a host sees is a part of what `Interpreter.run` yields, and all of it once
the run has halted.

The two loops of the interpreter, the blocking and the cooperative one, differ in their
pauses. Without these every run is the one that never pauses (`run_unpaused`), which is
what a host that moves by itself is compared with.
-/

namespace LineBasic

def Event.prompts (events : List Event) : List String :=
  events.filterMap fun
    | .prompt text => some text
    | _ => none

namespace Event

@[simp] theorem prompts_append (xs ys : List Event) :
    prompts (xs ++ ys) = prompts xs ++ prompts ys :=
  List.filterMap_append

@[simp] theorem prompts_prompt (text : String) (events : List Event) :
    prompts (.prompt text :: events) = text :: prompts events := rfl

end Event

def Script.unthrottled (script : Script) : Script := { script with pacing := .blocking false }

def Run.unpaused (r : Run) : Run := { r with pauses := 0 }

def Logged.unpaused (x : Logged Run) : Logged Run := ⟨x.value.unpaused, x.events⟩

namespace Run

section Pauses

variable (script : Script) (r : Run)

/-- How a step goes does not depend on the pauses. -/
theorem advance_unpaused :
    r.unpaused.advance script.unthrottled = (r.advance script).unpaused := by
  have hstep : r.unpaused.interpreter.step
      (script.unthrottled.requests (r.unpaused.outputs + 1)) =
      r.interpreter.step (script.requests (r.outputs + 1)) := rfl
  unfold advance
  simp only [hstep]
  generalize r.interpreter.step (script.requests (r.outputs + 1)) = step
  cases Event.oversized? step.events with
  | some digits => rfl
  | none =>
    by_cases hrunning : step.value.status = .running <;>
      simp only [bind, hrunning, if_true, if_false] <;> rfl

theorem answer_unpaused (text : String) :
    r.unpaused.answer text = (r.answer text).unpaused := by
  have hresume : r.unpaused.interpreter.resume text = r.interpreter.resume text := rfl
  unfold answer
  rw [hresume]
  generalize r.interpreter.resume text = reply
  obtain ⟨⟨_ | _ | f, i⟩, events⟩ := reply <;> rfl

theorem ask_unpaused (exhausted : Exhausted) :
    r.unpaused.ask exhausted = (r.ask exhausted).unpaused := by
  have hanswers : r.unpaused.answers = r.answers := rfl
  unfold ask
  rw [hanswers]
  cases r.answers with
  | cons text rest =>
    exact congrArg (Logged.event _ >>= fun _ => ·) (answer_unpaused { r with answers := rest } text)
  | nil =>
    cases exhausted with
    | blank => exact congrArg (Logged.event _ >>= fun _ => ·) (answer_unpaused r "")
    | stop farewell => rfl

theorem round_unpaused : r.unpaused.round script.unthrottled = (r.round script).unpaused := by
  have hawaits : (r.advance script).value.unpaused.awaits = (r.advance script).value.awaits := rfl
  unfold round
  rw [advance_unpaused]
  simp only [bind, Logged.unpaused, hawaits]
  cases (r.advance script).value.awaits with
  | false => rfl
  | true =>
    have hexhausted : script.unthrottled.exhausted = script.exhausted := rfl
    rw [if_pos rfl, if_pos rfl, hexhausted, ask_unpaused]
    rfl

theorem drive_unpaused (fuel : Nat) (log : Array Event) :
    r.unpaused.drive script.unthrottled fuel log =
      ((r.drive script fuel log).1.unpaused, (r.drive script fuel log).2) := by
  induction fuel generalizing r log with
  | zero => rfl
  | succ fuel ih =>
    have hover : r.unpaused.isOver = r.isOver := rfl
    simp only [drive, hover, round_unpaused]
    split
    · rfl
    · exact ih (r.round script).value _

/-- A throttled driver pauses where the cooperative one does. -/
theorem drive_throttled (fuel : Nat) (log : Array Event) :
    r.drive { script with pacing := .blocking true } fuel log =
      r.drive { script with pacing := .cooperative } fuel log := by
  induction fuel generalizing r log with
  | zero => rfl
  | succ fuel ih =>
    have hround : r.round { script with pacing := .blocking true } =
        r.round { script with pacing := .cooperative } := rfl
    rw [drive, drive, hround]
    split
    · rfl
    · exact ih _ _

end Pauses

end Run

namespace Interpreter

variable (i : Interpreter) (fuel : Nat) (script : Script) (program : Program)

/-- Every run is the one of a driver that never pauses, but for its pauses. -/
theorem run_unpaused :
    i.run fuel script.unthrottled program = (i.run fuel script program).unpaused := by
  have hdrive := Run.drive_unpaused script (i.begin program script.answers).value fuel
    (i.begin program script.answers).events.toArray
  exact congrArg (fun x : Run × Array Event => Logged.mk x.1 x.2.toList) hdrive

/-- The cooperative driver runs a program like the blocking one. It pauses where a
throttled driver does, and a driver that is not throttled never pauses. -/
theorem runCooperatively_agrees :
    (i.runCooperatively fuel script program).unpaused = (i.run fuel script program).unpaused ∧
      ∀ throttled, (i.run fuel { script with pacing := .blocking throttled } program).value.pauses =
        if throttled then (i.runCooperatively fuel script program).value.pauses else 0 := by
  refine ⟨?_, fun throttled => ?_⟩
  · exact (run_unpaused i fuel { script with pacing := .cooperative } program).symm.trans
      (run_unpaused i fuel script program)
  · cases throttled with
    | true =>
      have hdrive := Run.drive_throttled script (i.begin program script.answers).value fuel
        (i.begin program script.answers).events.toArray
      exact congrArg (fun x => x.1.pauses) hdrive
    | false =>
      have hrun := run_unpaused i fuel script.unthrottled program
      exact congrArg (fun x => x.value.pauses) hrun

end Interpreter

inductive Move where
  | step
  | answer
deriving DecidableEq, Repr

namespace Run

/-- Makes a move, if it is allowed: only an interpreter that waits is given an
answer, the next one of those left. -/
def move (r : Run) : Move → Option (Logged Run)
  | .step => some (r.advance {})
  | .answer =>
    if r.interpreter.status = .waiting ∧ r.answers ≠ [] then some (r.ask .blank) else none

def moves : List Move → Run → Option (Logged Run)
  | [], r => some (pure r)
  | m :: ms, r =>
    (r.move m).bind fun x => (moves ms x.value).map fun y => ⟨y.value, x.events ++ y.events⟩

def nextMove? (r : Run) : Option Move :=
  match r.interpreter.status with
  | .running => some .step
  | .waiting => some .answer
  | .idle | .halted => none

inductive Leads : Run → List Event → Run → Prop
  | still {r : Run} (hnext : r.nextMove? = none) : r.Leads [] r
  | next {r final : Run} {m : Move} {x : Logged Run} {events : List Event}
      (hnext : r.nextMove? = some m) (hmove : r.move m = some x)
      (hrest : x.value.Leads events final) : r.Leads (x.events ++ events) final

section Moves

variable {r final : Run} {m : Move} {ms : List Move} {x : Logged Run} {events : List Event}

/-- A move that does not carry the run on does nothing. -/
theorem eq_pure_of_move (h : r.move m = some x) (hnext : r.nextMove? ≠ some m) : x = pure r := by
  cases m with
  | step =>
    have hstill : r.interpreter.status ≠ .running := fun hrunning => by
      simp [nextMove?, hrunning] at hnext
    have hstep (requests : List Request) : r.interpreter.step requests = pure r.interpreter := by
      simp [Interpreter.step, hstill]
    have hadvance : r.advance {} = pure r := by
      simp [advance, hstep, bind, pure, hstill, Event.countOutputs]
    rw [move, hadvance] at h
    cases h
    rfl
  | answer =>
    simp only [move] at h
    split at h
    · next hwaiting => simp [nextMove?, hwaiting.1] at hnext
    · cases h

/-- Whatever move is made, the run comes to the same end, and what happens on
the way is part of what was to happen. -/
theorem Leads.of_move (h : r.Leads events final) (hmove : r.move m = some x) :
    ∃ rest, events = x.events ++ rest ∧ x.value.Leads rest final := by
  by_cases hm : r.nextMove? = some m
  · cases h with
    | still hnext => simp [hnext] at hm
    | next hnext hmove' hrest =>
      rw [hnext] at hm
      cases hm
      rw [hmove'] at hmove
      cases hmove
      exact ⟨_, rfl, hrest⟩
  · rw [eq_pure_of_move hmove hm]
    exact ⟨events, rfl, h⟩

theorem exists_of_moves_cons (h : r.moves (m :: ms) = some x) : ∃ y z, r.move m = some y ∧
    y.value.moves ms = some z ∧ x = ⟨z.value, y.events ++ z.events⟩ := by
  obtain ⟨y, hmove, hrest⟩ := Option.bind_eq_some_iff.mp h
  obtain ⟨z, hmoves, hx⟩ := Option.map_eq_some_iff.mp hrest
  exact ⟨y, z, hmove, hmoves, hx.symm⟩

theorem Leads.of_moves (h : r.Leads events final) (hmoves : r.moves ms = some x) :
    ∃ rest, events = x.events ++ rest ∧ x.value.Leads rest final := by
  induction ms generalizing r events x with
  | nil =>
    cases hmoves
    exact ⟨events, rfl, h⟩
  | cons m ms ih =>
    obtain ⟨y, z, hmove, hothers, rfl⟩ := exists_of_moves_cons hmoves
    obtain ⟨behind, rfl, hbehind⟩ := h.of_move hmove
    obtain ⟨rest, rfl, hrest⟩ := ih hbehind hothers
    exact ⟨rest, (List.append_assoc ..).symm, hrest⟩

/-- Some moves bring a run to its end. -/
theorem Leads.exists_moves (h : r.Leads events final) :
    ∃ ms, r.moves ms = some ⟨final, events⟩ := by
  induction h with
  | still => exact ⟨[], rfl⟩
  | @next r final m x events hnext hmove hrest ih =>
    obtain ⟨ms, hms⟩ := ih
    exact ⟨m :: ms, by rw [moves, hmove, Option.bind_some, hms]; rfl⟩

/-- Nothing is to come of a run that has halted. -/
theorem Leads.of_halted (h : r.Leads events final) (hhalted : r.interpreter.status = .halted) :
    r = final ∧ events = [] := by
  cases h with
  | still => exact ⟨rfl, rfl⟩
  | next hnext => simp [nextMove?, hhalted] at hnext

/-- An answer keeps what broke the run off before. -/
theorem abort_answer (text : String) (h : (r.answer text).value.abort = none) : r.abort = none := by
  unfold answer at h
  simp only [Logged.value_bind] at h
  split at h
  · cases h
  · exact h

theorem abort_of_move (h : r.move m = some x) (hx : x.value.abort = none) : r.abort = none := by
  cases m with
  | step =>
    cases h
    rw [abort_advance] at hx
    exact (Option.or_eq_none_iff.mp hx).2
  | answer =>
    simp only [move] at h
    split at h
    · next hwaiting =>
      cases h
      unfold ask at hx
      cases hanswers : r.answers with
      | nil => exact absurd hanswers hwaiting.2
      | cons text rest =>
        rw [hanswers] at hx
        exact abort_answer (r := { r with answers := rest }) text hx
    · cases h

/-- A run that nothing breaks off has not been broken off. -/
theorem Leads.abort_eq_none (h : r.Leads events final) (hfinal : final.abort = none) :
    r.abort = none := by
  induction h with
  | still => exact hfinal
  | next hnext hmove hrest ih => exact abort_of_move hmove (ih hfinal)

end Moves

section Rounds

variable {program : Program} {r final : Run} {lines : List String} {events : List Event}
  {script : Script}

/-- A driver that never pauses, and whose host asks for nothing, makes the moves of a
host that drives the interpreter itself. -/
theorem move_step_of_quiet (hquiet : ∀ n, script.requests n = []) (r : Run) :
    r.move .step = some (r.advance script.unthrottled) := by
  have hrequests : script.unthrottled.requests (r.outputs + 1) = [] := hquiet _
  rw [move]
  unfold advance
  rw [hrequests]
  rfl

/-- An answer that there is does not depend on what happens when there is none. -/
theorem move_answer_of_ne_nil (hwaiting : r.interpreter.status = .waiting)
    (hanswers : r.answers ≠ []) (exhausted : Exhausted) :
    r.move .answer = some (r.ask exhausted) := by
  obtain ⟨text, rest, hcons⟩ := List.exists_cons_of_ne_nil hanswers
  rw [move, if_pos ⟨hwaiting, hanswers⟩]
  unfold ask
  rw [hcons]

theorem prompts_ask_ne_nil (exhausted : Exhausted) (r : Run) :
    Event.prompts (r.ask exhausted).events ≠ [] := by
  simp [ask, Logged.event]

/-- A round is a step and, if the interpreter then waits, an answer. -/
theorem round_of_awaits (h : (r.advance script).value.awaits = true) :
    r.round script = ⟨((r.advance script).value.ask script.exhausted).value,
      (r.advance script).events ++ ((r.advance script).value.ask script.exhausted).events⟩ := by
  simp only [round, bind, h, if_true]

theorem events_round_of_not_awaits (h : (r.advance script).value.awaits = false) :
    (r.round script).events = (r.advance script).events := by
  simp only [round, Logged.events_bind, h]
  exact List.append_nil _

/-- A round makes one move that carries the run on, or two if the first one
leads to an INPUT statement. -/
theorem leads_round (hquiet : ∀ n, script.requests n = [])
    (hrunning : r.interpreter.status = .running)
    (hanswers : (Event.prompts (r.round script.unthrottled).events).length ≤ r.answers.length)
    (h : (r.round script.unthrottled).value.Leads events final) :
    r.Leads ((r.round script.unthrottled).events ++ events) final := by
  have hnext : r.nextMove? = some .step := by simp [nextMove?, hrunning]
  let r' := (r.advance script.unthrottled).value
  cases hawaits : r'.awaits with
  | true =>
    rw [round_of_awaits hawaits] at hanswers h ⊢
    have hwaiting : r'.interpreter.status = .waiting := by
      simp only [awaits, Bool.and_eq_true, decide_eq_true_eq] at hawaits
      exact hawaits.1
    have hleft : r'.answers ≠ [] := by
      have hasked := List.length_pos_of_ne_nil (prompts_ask_ne_nil script.exhausted r')
      have hkept : r'.answers = r.answers := answers_advance _ r
      rw [hkept]
      refine List.ne_nil_of_length_pos ?_
      rw [Event.prompts_append, List.length_append] at hanswers
      change _ + (Event.prompts (r'.ask script.exhausted).events).length ≤ _ at hanswers
      omega
    have hnext' : r'.nextMove? = some .answer := by simp [nextMove?, hwaiting]
    rw [List.append_assoc]
    refine .next hnext (move_step_of_quiet hquiet r) ?_
    exact .next hnext' (move_answer_of_ne_nil hwaiting hleft script.exhausted) h
  | false =>
    rw [round_of_not_awaits _ hawaits] at h
    rw [events_round_of_not_awaits hawaits]
    exact .next hnext (move_step_of_quiet hquiet r) h

theorem answers_answer (text : String) (r : Run) : (r.answer text).value.answers = r.answers := by
  simp only [answer, Logged.value_bind]
  split <;> rfl

/-- Every answer that is taken was asked for. -/
theorem answers_ask_le (exhausted : Exhausted) (r : Run) :
    r.answers.length ≤ (Event.prompts (r.ask exhausted).events).length +
      (r.ask exhausted).value.answers.length := by
  have hasked := List.length_pos_of_ne_nil (r.prompts_ask_ne_nil exhausted)
  cases hanswers : r.answers with
  | nil => exact Nat.zero_le _
  | cons text rest =>
    have hrest : (r.ask exhausted).value.answers = rest := by
      simp only [ask, hanswers, Logged.value_bind, answers_answer]
    rw [hrest, List.length_cons]
    omega

theorem answers_round_le (script : Script) (r : Run) :
    r.answers.length ≤ (Event.prompts (r.round script).events).length +
      (r.round script).value.answers.length := by
  rw [← answers_advance script r]
  cases hawaits : (r.advance script).value.awaits with
  | true =>
    have hask := answers_ask_le script.exhausted (r.advance script).value
    simp only [round_of_awaits hawaits, Event.prompts_append, List.length_append]
    omega
  | false =>
    rw [round_of_not_awaits script hawaits]
    exact Nat.le_add_left _ _

theorem leads_of_halted (h : r.interpreter.status = .halted) : r.Leads [] r :=
  .still (by simp [nextMove?, h])

/-- A run that halts without a pause and without a request of its host, and that had an
answer ready for each prompt, comes to its end by the moves that carry it on. -/
theorem exists_leads_drive (hquiet : ∀ n, script.requests n = []) (fuel : Nat)
    (log : Array Event) (h : r.Contained program lines) (hidle : r.interpreter.status ≠ .idle)
    (hhalted : (r.drive script.unthrottled fuel log).1.interpreter.status = .halted) :
    ∃ events, (r.drive script.unthrottled fuel log).2.toList = log.toList ++ events ∧
      ((Event.prompts events).length ≤ r.answers.length →
        r.Leads events (r.drive script.unthrottled fuel log).1) := by
  induction fuel generalizing r lines log with
  | zero => exact ⟨[], by simp [drive], fun _ => leads_of_halted hhalted⟩
  | succ fuel ih =>
    cases hover : r.isOver with
    | true =>
      rw [drive_of_isOver _ hover] at hhalted ⊢
      exact ⟨[], by simp, fun _ => leads_of_halted hhalted⟩
    | false =>
      have hrunning := running_of_contained h hidle hover
      have hdrive : r.drive script.unthrottled (fuel + 1) log =
          (r.round script.unthrottled).value.drive script.unthrottled fuel
            (log ++ (r.round script.unthrottled).events) := by
        simp [drive, hover]
      rw [hdrive] at hhalted ⊢
      obtain ⟨events, hevents, hleads⟩ := ih _ (contained_round _ h hover)
        (status_round_ne_idle _ hidle) hhalted
      refine ⟨(r.round script.unthrottled).events ++ events, ?_, fun hanswers => ?_⟩
      · rw [hevents, Array.toList_appendList, List.append_assoc]
      · have htaken := answers_round_le script.unthrottled r
        rw [Event.prompts_append, List.length_append] at hanswers
        exact leads_round hquiet hrunning (by omega) (hleads (by omega))

end Rounds

end Run

namespace Interpreter

/-- Starts a program and makes moves, with these answers to give. -/
def play (answers : List String) (ms : List Move) (program : Program) (i : Interpreter) :
    Option (Logged Run) :=
  let begun := i.begin program answers
  (Run.moves ms begun.value).map fun x => ⟨x.value, begun.events ++ x.events⟩

/-- If a script halts a program without a request, and had an answer ready for
each prompt, then every host that drives the interpreter itself, with the same
answers, obtains the same, and so does the cooperative driver. Nothing breaks the host
off. Once the interpreter has halted, the events, the interpreter with its error and its
machine, and the answers left are those of the run. Before that, they are on the way
there: some further moves lead to the same, but for the pauses. -/
theorem play_agrees_with_run (i : Interpreter) (fuel : Nat) (script : Script) (program : Program)
    (hquiet : ∀ n, script.requests n = [])
    (hhalted : (i.run fuel script program).value.interpreter.status = .halted)
    (hanswers : (Event.prompts (i.run fuel script program).events).length ≤ script.answers.length)
    {ms : List Move} {x : Logged Run} (hplay : i.play script.answers ms program = some x) :
    let run := i.run fuel script program
    x.value.abort = none ∧
    (x.value.interpreter.status = .halted → x.events = run.events ∧
      x.value.interpreter = run.value.interpreter ∧ x.value.answers = run.value.answers) ∧
    (∃ more rest, x.value.moves more = some ⟨run.value.unpaused, rest⟩ ∧
      x.events ++ rest = run.events) ∧
    (i.runCooperatively fuel script program).unpaused = run.unpaused := by
  intro run
  let begun := i.begin program script.answers
  have hunpaused : i.run fuel script.unthrottled program = run.unpaused :=
    run_unpaused i fuel script program
  have hend : (i.run fuel script.unthrottled program).value.interpreter.status = .halted := by
    rw [hunpaused]
    exact hhalted
  obtain ⟨events, hevents, hleads⟩ := Run.exists_leads_drive (r := begun.value) hquiet fuel
    begun.events.toArray (Run.contained_start (i.load program) script.answers)
    (by simp [begun, begin, start]) hend
  have hrun : run.events = begun.events ++ events :=
    (congrArg Logged.events hunpaused).symm.trans hevents
  have habort : run.value.unpaused.abort = none :=
    (Run.contained_run fuel script program i).abort_eq_none hhalted
  have hprompts : (Event.prompts events).length ≤ begun.value.answers.length := by
    have hall : (Event.prompts run.events).length ≤ script.answers.length := hanswers
    rw [hrun, Event.prompts_append, List.length_append] at hall
    exact Nat.le_trans (Nat.le_add_left _ _) hall
  have hlast : (i.run fuel script.unthrottled program).value = run.value.unpaused :=
    congrArg Logged.value hunpaused
  have hfirst : begun.value.Leads events run.value.unpaused := by
    rw [← hlast]
    exact hleads hprompts
  obtain ⟨y, hmoves, rfl⟩ := Option.map_eq_some_iff.mp hplay
  obtain ⟨rest, rfl, hrest⟩ := hfirst.of_moves hmoves
  refine ⟨hrest.abort_eq_none habort, fun hover => ?_, ?_,
    (runCooperatively_agrees i fuel script program).1⟩
  · obtain ⟨hvalue, rfl⟩ := hrest.of_halted hover
    have hinterpreter : y.value.interpreter = run.value.interpreter := by rw [hvalue]; rfl
    have hleft : y.value.answers = run.value.answers := by rw [hvalue]; rfl
    exact ⟨by rw [hrun, List.append_nil], hinterpreter, hleft⟩
  · obtain ⟨more, hmore⟩ := hrest.exists_moves
    exact ⟨more, rest, hmore, by rw [hrun, List.append_assoc]⟩

def twoQuestions : Program :=
  (Program.load ["10 INPUT \"A\"; A", "20 INPUT B", "30 PRINT A + B"]).toOption.getD .empty

/-- A host that steps too often, also while it is asked and after the halt. -/
theorem play_agrees_with_run_at_twoQuestions :
    let i : Interpreter := { generator := ⟨#[], 0⟩ }
    let script : Script := { answers := ["1", "2", "3"] }
    let run := i.run 9 script twoQuestions
    let ms : List Move := [.step, .step, .step, .answer, .step, .answer, .step, .step]
    ∃ x, i.play script.answers ms twoQuestions = some x ∧
      x.events = run.events ∧ x.value.interpreter = run.value.interpreter ∧
      Event.lines x.events = ["3"] ∧ Event.prompts x.events = ["A", ""] ∧
      x.value.answers = ["3"] := by
  intro i script run ms
  have hplayed : (i.play script.answers ms twoQuestions).isSome = true := by decide +kernel
  obtain ⟨x, hx⟩ := Option.isSome_iff_exists.mp hplayed
  have hend : (i.play script.answers ms twoQuestions).map
      (fun x => x.value.interpreter.status) = some .halted := by decide +kernel
  have hhalted : x.value.interpreter.status = .halted := by
    rw [hx] at hend
    exact Option.some.inj hend
  obtain ⟨-, hsame, -, -⟩ := play_agrees_with_run i 9 script twoQuestions
    (fun _ => rfl) (by decide +kernel) (by decide +kernel) hx
  obtain ⟨hevents, hinterpreter, hanswers⟩ := hsame hhalted
  have hlines : Event.lines run.events = ["3"] := by decide +kernel
  have hprompts : Event.prompts run.events = ["A", ""] := by decide +kernel
  have hleft : run.value.answers = ["3"] := by decide +kernel
  exact ⟨x, hx, hevents, hinterpreter, by rw [hevents, hlines], by rw [hevents, hprompts],
    hanswers.trans hleft⟩

end Interpreter

end LineBasic
