import LineBasic.Proofs.Assignments
import LineBasic.Proofs.Steps

/-!
Loops from their FOR statement to behind their NEXT statement. The body of a
loop here only prints, remarks, and assigns to other variables, so every round
goes straight through it. `CountedLoop.InRound` holds at every statement of
every round: one step goes from each statement to the one behind it, and that of
NEXT goes to the next round or leaves the loop.

The variable runs through the values that `ForLoop.value` lists.
-/

namespace LineBasic

open Text

/-- A loop goes on up to its bound if it counts up, and down to it if it counts down. With
a step that is not a number it does neither. -/
theorem ForLoop.continuesAt_iff {loop : ForLoop} {x : Float} : loop.continuesAt x = true ↔
    0 < loop.step ∧ x ≤ loop.bound ∨ loop.step < 0 ∧ loop.bound ≤ x := by
  simp [continuesAt]

/-- The value of a loop's variable in a round, counted from zero. -/
def ForLoop.value (loop : ForLoop) (start : Float) : Nat → Float
  | 0 => start
  | k + 1 => loop.value start k + loop.step

/-- The values of the three expressions of a header, evaluated in order. -/
def LoopHeader.values (env : Environment) (h : LoopHeader) : Eval Fault (Value × Value × Value) := do
  let start ← evaluateTrimmed env h.start
  let bound ← evaluateTrimmed env h.bound
  let step ← h.stepValue env
  return (start, bound, step)

/-- Entering a loop evaluates the header, and then checks it. -/
theorem LoopHeader.run_execute (h : LoopHeader) (e : Execution) : h.execute.run.run e =
    match (h.values e.machine.environment).run.run e.generator with
    | (.ok (start, bound, step), g) =>
      (h.enter start bound step).run.run { e with generator := g }
    | (.error f, g) => (.error f, { e with generator := g }) := by
  simp only [execute, values, run_run_bind, Exec.run_eval]
  cases (evaluateTrimmed e.machine.environment h.start).run.run e.generator with
  | mk start g =>
    cases start with
    | error f => rfl
    | ok start =>
      simp only
      cases (evaluateTrimmed e.machine.environment h.bound).run.run g with
      | mk bound g =>
        cases bound with
        | error f => rfl
        | ok bound =>
          simp only
          cases (h.stepValue e.machine.environment).run.run g with
          | mk step g =>
            cases step with
            | error f => rfl
            | ok step => rfl

section Parts

variable {e : Execution} {environment : Environment}

/-- With a step that is not zero the variable is bound, and the loop begins. -/
theorem LoopHeader.run_enter {h : LoopHeader} {start bound step : Float}
    (hstep : (step == 0) = false)
    (hset : e.machine.environment.set h.name (.number start) = .ok environment) :
    (h.enter (.number start) (.number bound) (.number step)).run.run e = (.ok .advance, { e with
      machine := { e.machine with
        environment := environment
        loops := e.machine.loops.insert h.name ⟨bound, step, e.machine.place⟩ } }) := by
  simp only [enter, hstep, Bool.false_eq_true, if_false, run_run_bind, Exec.run_assign, hset,
    Exec.run_change]
  rfl

/-- A round of a loop over a number ends with the step added to it. -/
theorem Exec.run_nextRound {name : String} {loop : ForLoop} {x : Float}
    (hloop : e.machine.loops[name]? = some loop)
    (hget : e.machine.environment.get name = .ok (.number x))
    (hset : e.machine.environment.set name (.number (x + loop.step)) = .ok environment) :
    (nextRound name).run.run e =
      if loop.continuesAt (x + loop.step) then
        (.ok (.moveTo (loop.start + 1)), { e with machine := { e.machine with environment } })
      else (.ok .advance, { e with
        machine := { e.machine with environment, loops := e.machine.loops.erase name } }) := by
  simp only [nextRound, run_run_bind, run_machine, hloop, run_ofExcept, hget, run_assign, hset]
  split <;> rfl

end Parts

/-- Whether a command only prints, remarks, or assigns to a variable other than the
one given. -/
def Command.IsPlain (key : String) : Command → Prop
  | .print _ | .remark => True
  | .assign name _ => name ≠ key
  | _ => False

instance (key : String) : DecidablePred (Command.IsPlain key)
  | .print _ | .remark => isTrue trivial
  | .assign name _ => inferInstanceAs (Decidable (name ≠ key))
  | .input _ _ | .goto _ | .gosub _ | .ret | .branch _ _ _ | .loop _ | .next _ | .finish
  | .invalid _ => isFalse id

section Effects

variable {m : Machine} {c : Command} {effect : Effect} {key name : String}

/-- A name that has been checked is in upper case. -/
theorem upperString_of_normalName (h : ∃ s, normalName s = .ok name) : upperString name = name := by
  obtain ⟨s, hs⟩ := h
  unfold normalName at hs
  split at hs
  · cases hs
    exact upperString_upperString s
  · cases hs

theorem Command.IsPlain.innermost_eq (h : c.IsPlain key) : c.innermost = c := by
  cases c with
  | branch => exact absurd h id
  | _ => rfl

/-- A plain command goes on behind itself, and touches neither the loops nor the
variable. -/
theorem Command.IsPlain.frame (h : c.IsPlain key) (hkey : upperString key = key)
    (hchecked : c.HasCheckedNames) (heffect : m.Allows c effect) :
    effect.transfer = .advance ∧ effect.machine.loops = m.loops ∧
      effect.machine.environment.get? key = m.environment.get? key := by
  cases heffect with
  | skip | print => exact ⟨rfl, rfl, rfl⟩
  | assign hset =>
    refine ⟨rfl, rfl, ?_⟩
    rw [Environment.get?_set hset, hkey, upperString_of_normalName hchecked, if_neg h]
  | _ => exact absurd h id

end Effects

namespace Interpreter

instance (i : Interpreter) (s : Statement) : Decidable (i.Executes s) :=
  inferInstanceAs (Decidable (_ ∧ _ ∧ _ ∧ _))

/-- The interpreter after so many steps, in which its host asks for nothing. -/
def steps (i : Interpreter) (n : Nat) : Interpreter := i.after (List.replicate n (.step []))

variable {i : Interpreter} {s : Statement} {effect : Effect}

theorem steps_succ (i : Interpreter) (n : Nat) : i.steps (n + 1) = ((i.steps n).step []).value := by
  rw [steps, List.replicate_succ', after_append]
  rfl

theorem asked_nil (i : Interpreter) : i.asked [] = i := (value_handle [] i).symm

/-- A statement that leads to no line has its effect, prints its line, and goes on. -/
theorem value_enact_nil (line : Nat) (effect : Effect) (i : Interpreter) :
    (i.enact [] line effect).value =
      ({ i with machine := effect.machine }.follow [] line effect.transfer).value := by
  unfold enact
  cases effect.output with
  | none => rfl
  | some text => rw [Logged.value_bind, value_output, asked_nil]

/-- Going on at an index changes neither the program nor the variables nor the loops. -/
theorem frame_moveTo (index : Nat) (i : Interpreter) :
    (i.moveTo index).value.program = i.program ∧ (i.moveTo index).value.machine.place = index ∧
      (i.moveTo index).value.machine.environment = i.machine.environment ∧
      (i.moveTo index).value.machine.loops = i.machine.loops := by
  rw [value_moveTo]
  split <;> exact ⟨rfl, rfl, rfl, rfl⟩

/-- A statement with a place to go on at goes there. -/
theorem value_step_of_landing {index : Nat} (hs : i.Executes s)
    (hout : (i.outcome s).1 = .ok effect)
    (hindex : i.program.landing? i.machine.place effect.transfer = some index) :
    (i.step []).value = ((i.acted s effect).moveTo index).value := by
  have hplace : effect.machine.place = i.machine.place := (allows_of_outcome hout).frame.1
  rw [step_of_executes hs, value_perform_of_ok hout, value_enact_nil]
  cases ht : effect.transfer with
  | advance =>
    rw [ht] at hindex
    cases hindex
    simp only [follow, hplace]
    rfl
  | moveTo index =>
    rw [ht] at hindex
    cases hindex
    rfl
  | jump target =>
    rw [ht] at hindex
    cases target with
    | oversized digits => cases hindex
    | line number =>
      have hfound : (i.drawn s).program.indexOf? number = some index := hindex
      simp only [follow, hfound]
      rfl
  | finish =>
    rw [ht] at hindex
    cases hindex
  | await name prompt =>
    rw [ht] at hindex
    cases hindex

/-- Where there is a statement to go on with, it is the next one. -/
theorem executes_step_of_landing {index : Nat} {t : Statement} (hs : i.Executes s)
    (hout : (i.outcome s).1 = .ok effect)
    (hindex : i.program.landing? i.machine.place effect.transfer = some index)
    (ht : i.program.statementAt? index = some t) :
    (i.step []).value = (i.acted s effect).placed index ∧ (i.step []).value.Executes t := by
  have hlt : index < i.program.size := (List.getElem?_eq_some_iff.mp ht).1
  have hvalue : (i.step []).value = (i.acted s effect).placed index := by
    rw [value_step_of_landing hs hout hindex, value_moveTo, program_acted,
      if_neg (Nat.not_le_of_lt hlt)]
  obtain ⟨-, hrunning, hbreak⟩ := (allows_of_outcome hout).frame
  obtain ⟨hstatus, hon, hoff, -⟩ := hs
  refine ⟨hvalue, ?_⟩
  rw [hvalue]
  exact ⟨hstatus, hrunning.trans hon, hbreak.trans hoff, ht⟩

end Interpreter

structure CountedLoop where
  before : List Statement
  head : Statement
  parts : Shape.LoopText
  body : List Statement
  tail : Statement
  behind : List Statement
  isSpelled : parts.IsSpelled
  isAscii : parts.name.all isNameChar = true
  head_code : trimString head.code = "FOR" ++ String.ofList parts.spelling
  tail_code : trimString tail.code = "NEXT " ++ String.ofList parts.name
  isPlain : ∀ s ∈ body,
    (Command.ofText (trimString s.code)).IsPlain (String.ofList (upper parts.name))

namespace CountedLoop

def statements (l : CountedLoop) : List Statement :=
  l.before ++ l.head :: (l.body ++ l.tail :: l.behind)

def key (l : CountedLoop) : String := String.ofList (upper l.parts.name)

def header (l : CountedLoop) : LoopHeader :=
  ⟨l.key, trim l.parts.start, trim l.parts.bound, l.parts.step.map trim,
    "FOR" ++ String.ofList l.parts.spelling⟩

/-- The index of a statement of the body; behind the body that of NEXT. -/
def index (l : CountedLoop) (j : Nat) : Nat := l.before.length + 1 + j

def line (l : CountedLoop) (j : Nat) : Statement := (l.body[j]?).getD l.tail

/-- How many steps lead from the FOR statement to a statement of a round. -/
def time (l : CountedLoop) (k j : Nat) : Nat := 1 + k * (l.body.length + 1) + j

/-- Whether no statement of the body faults in the first steps. -/
def IsQuiet (l : CountedLoop) (i : Interpreter) (n : Nat) : Prop :=
  ∀ m < n, ∀ s ∈ l.body, (i.steps m).Executes s → (i.steps m).raised? s = none

instance (l : CountedLoop) (i : Interpreter) (n : Nat) : Decidable (l.IsQuiet i n) :=
  inferInstanceAs (Decidable (∀ m < n, ∀ s ∈ l.body, _ → _ = none))

structure InRound (l : CountedLoop) (i : Interpreter) (loop : ForLoop) (x : Float) (j : Nat)
    (r : Interpreter) : Prop where
  executes : r.Executes (l.line j)
  program : r.program = i.program
  place : r.machine.place = l.index j
  value : r.machine.environment.get? l.key = some (.number x)
  loops : r.machine.loops = i.machine.loops.insert l.key loop

structure IsLeft (l : CountedLoop) (i : Interpreter) (x : Float) (r : Interpreter) : Prop where
  executes : ∀ s, l.behind.head? = some s → r.Executes s
  halted : l.behind = [] → r.status = .halted
  program : r.program = i.program
  place : r.machine.place = l.index (l.body.length + 1)
  value : r.machine.environment.get? l.key = some (.number x)
  loops : r.machine.loops = i.machine.loops.erase l.key

variable {l : CountedLoop} {i r : Interpreter} {loop : ForLoop} {x start bound step : Float}
  {j k n : Nat}

theorem IsQuiet.mono {m : Nat} (h : l.IsQuiet i n) (hle : m ≤ n) : l.IsQuiet i m :=
  fun t ht => h t (Nat.lt_of_lt_of_le ht hle)

theorem time_succ (l : CountedLoop) (k j : Nat) : l.time k (j + 1) = l.time k j + 1 := rfl

/-- A round starts one step behind the NEXT statement of the round before. -/
theorem time_next (l : CountedLoop) (k : Nat) :
    l.time (k + 1) 0 = l.time k l.body.length + 1 := by
  simp only [time, Nat.add_mul]
  omega

theorem line_length (l : CountedLoop) : l.line l.body.length = l.tail := by
  rw [line, List.getElem?_eq_none (Nat.le_refl _), Option.getD_none]

theorem getElem?_index (l : CountedLoop) (j : Nat) :
    l.statements[l.index j]? = (l.body ++ l.tail :: l.behind)[j]? := by
  have hsub : l.before.length + 1 + j - l.before.length = j + 1 := by omega
  rw [statements, index, List.getElem?_append_right (by omega), hsub, List.getElem?_cons_succ]

section Lines

variable {p : Program} (hp : p.statements = l.statements)

include hp

theorem statementAt?_index (hj : j ≤ l.body.length) :
    p.statementAt? (l.index j) = some (l.line j) := by
  rw [Program.statementAt?, hp, getElem?_index]
  rcases Nat.lt_or_eq_of_le hj with hlt | rfl
  · rw [List.getElem?_append_left hlt, line, List.getElem?_eq_getElem hlt, Option.getD_some]
  · rw [List.getElem?_append_right (Nat.le_refl _), Nat.sub_self, List.getElem?_cons_zero,
      line_length]

theorem statementAt?_behind : p.statementAt? (l.index (l.body.length + 1)) = l.behind.head? := by
  have hsub : l.body.length + 1 - l.body.length = 1 := Nat.add_sub_cancel_left _ 1
  rw [Program.statementAt?, hp, getElem?_index, List.getElem?_append_right (Nat.le_succ _), hsub,
    List.getElem?_cons_succ, List.head?_eq_getElem?]

end Lines

/-- The variable of the loop can be bound. -/
theorem isName_key (l : CountedLoop) : isName l.key.toList = true := by
  rw [key, String.toList_ofList]
  exact isName_upper_of_isNameChar l.isSpelled.name l.isAscii

theorem upperString_key (l : CountedLoop) : upperString l.key = l.key := by
  rw [key, upperString, String.toList_ofList, upper_upper]

theorem command_head (l : CountedLoop) :
    Command.ofText (trimString l.head.code) = .loop l.header := by
  have hcode : trimString l.head.code = String.ofList ("FOR".toList ++ l.parts.spelling) := by
    rw [l.head_code, String.ofList_append, String.ofList_toList]
  rw [Command.ofText_trimString hcode, Command.ofTrimmed_for l.isSpelled]
  rfl

theorem command_tail (l : CountedLoop) :
    Command.ofText (trimString l.tail.code) = .next l.key := by
  have hcode : trimString l.tail.code = String.ofList ("NEXT".toList ++ ' ' :: l.parts.name) := by
    rw [l.tail_code]
    exact String.toList_injective (by simp)
  rw [Command.ofText_trimString hcode, Command.ofTrimmed_next l.isSpelled.name]
  rfl

/-- Executing the FOR statement enters the loop with the values of its header. -/
theorem outcome_head {environment : Environment}
    (hvalues : ((l.header.values i.machine.environment).run.run i.generator).1 =
      .ok (.number start, .number bound, .number step))
    (hstep : (step == 0) = false)
    (hset : i.machine.environment.set l.key (.number start) = .ok environment) :
    (i.outcome l.head).1 = .ok {
      machine := { i.machine with
        environment := environment
        loops := i.machine.loops.insert l.key ⟨bound, step, i.machine.place⟩ } } := by
  obtain ⟨g, hrun⟩ : ∃ g, (l.header.values i.machine.environment).run.run i.generator =
      (.ok (.number start, .number bound, .number step), g) := ⟨_, Prod.ext hvalues rfl⟩
  refine Interpreter.outcome_of_execution (e := { i.begun l.head with
    machine := { i.machine with
      environment := environment
      loops := i.machine.loops.insert l.key ⟨bound, step, i.machine.place⟩ }
    generator := g }) ?_
  rw [Interpreter.execution_eq, l.command_head, Command.execute, LoopHeader.run_execute]
  simp only [Interpreter.begun, hrun]
  exact LoopHeader.run_enter hstep hset

theorem outcome_tail {environment : Environment} (hloop : r.machine.loops[l.key]? = some loop)
    (hget : r.machine.environment.get l.key = .ok (.number x))
    (hset : r.machine.environment.set l.key (.number (x + loop.step)) = .ok environment) :
    (r.outcome l.tail).1 = .ok (
      if loop.continuesAt (x + loop.step) then
        { machine := { r.machine with environment }, transfer := .moveTo (loop.start + 1) }
      else
        { machine := { r.machine with environment, loops := r.machine.loops.erase l.key } }) := by
  have hrun := Exec.run_nextRound (e := r.begun l.tail) hloop hget hset
  have hexecution : r.execution l.tail = (Exec.nextRound l.key).run.run (r.begun l.tail) := by
    rw [Interpreter.execution_eq, l.command_tail, Command.execute]
  rw [hrun] at hexecution
  split at hexecution
  · next hgoes =>
    rw [Interpreter.outcome_of_execution hexecution, if_pos hgoes]
    rfl
  · next hends =>
    rw [Interpreter.outcome_of_execution hexecution, if_neg hends]
    rfl

/-- The FOR statement leads into the first round. -/
theorem inRound_zero (hprogram : i.program.statements = l.statements)
    (hplace : i.machine.place = l.before.length) (hi : i.Executes l.head)
    (hvalues : ((l.header.values i.machine.environment).run.run i.generator).1 =
      .ok (.number start, .number bound, .number step))
    (hstep : (step == 0) = false) :
    l.InRound i ⟨bound, step, i.machine.place⟩ start 0 (i.step []).value := by
  obtain ⟨environment, hset⟩ := i.machine.environment.exists_set (.number start) l.isName_key
  have hout := outcome_head hvalues hstep hset
  have hlanding : i.program.landing? i.machine.place .advance = some (l.index 0) := by
    rw [Program.landing?, hplace, index, Nat.add_zero]
  obtain ⟨hvalue, hexecutes⟩ := Interpreter.executes_step_of_landing hi hout hlanding
    (statementAt?_index hprogram (Nat.zero_le _))
  refine ⟨hexecutes, ?_, ?_, ?_, ?_⟩
  · rw [hvalue]
    rfl
  · rw [hvalue]
    rfl
  · rw [hvalue]
    exact (Environment.get?_set hset _).trans (if_pos rfl)
  · rw [hvalue]
    rfl

/-- A statement of the body leads to the one behind it. -/
theorem InRound.advance (h : l.InRound i loop x j r) (hprogram : i.program.statements = l.statements)
    (hj : j < l.body.length) (hquiet : r.raised? (l.line j) = none) :
    l.InRound i loop x (j + 1) (r.step []).value := by
  have hline : l.line j = l.body[j] := by
    rw [line, List.getElem?_eq_getElem hj, Option.getD_some]
  have hplain : (Command.ofText (trimString (l.line j).code)).IsPlain l.key := by
    rw [hline]
    exact l.isPlain _ (List.getElem_mem hj)
  obtain ⟨effect, hout, -, -⟩ := Interpreter.exists_effect_of_quiet h.executes hquiet []
  have heffect : r.machine.Allows (Command.ofText (trimString (l.line j).code)) effect := by
    rw [← hplain.innermost_eq]
    exact Interpreter.allows_of_outcome hout
  obtain ⟨hadvance, hloops, henvironment⟩ :=
    hplain.frame l.upperString_key (Command.hasCheckedNames_ofTrimmed _) heffect
  have hlanding : r.program.landing? r.machine.place effect.transfer = some (l.index (j + 1)) := by
    rw [hadvance, Program.landing?, h.place]
    rfl
  have hstatements : r.program.statements = l.statements := by rw [h.program, hprogram]
  obtain ⟨hvalue, hexecutes⟩ := Interpreter.executes_step_of_landing h.executes hout hlanding
    (statementAt?_index hstatements hj)
  refine ⟨hexecutes, ?_, ?_, ?_, ?_⟩
  · rw [hvalue]
    exact h.program
  · rw [hvalue]
    rfl
  · rw [hvalue]
    exact henvironment.trans h.value
  · rw [hvalue]
    exact hloops.trans h.loops

/-- At the end of a round NEXT adds the step to the variable. -/
theorem InRound.outcome_tail (h : l.InRound i loop x j r) :
    ∃ environment : Environment,
      environment.get? l.key = some (.number (x + loop.step)) ∧
      (r.outcome l.tail).1 = .ok (
        if loop.continuesAt (x + loop.step) then
          { machine := { r.machine with environment }, transfer := .moveTo (loop.start + 1) }
        else
          { machine := { r.machine with environment, loops := r.machine.loops.erase l.key } }) := by
  obtain ⟨environment, hset⟩ :=
    r.machine.environment.exists_set (.number (x + loop.step)) l.isName_key
  have hloop : r.machine.loops[l.key]? = some loop := by
    rw [h.loops, Std.ExtTreeMap.getElem?_insert_self]
  have hget : r.machine.environment.get l.key = .ok (.number x) := by
    rw [Environment.get, h.value]
  exact ⟨environment, (Environment.get?_set hset _).trans (if_pos rfl),
    CountedLoop.outcome_tail hloop hget hset⟩

/-- NEXT leads into another round as long as the loop goes on. -/
theorem InRound.again (h : l.InRound i loop x l.body.length r)
    (hprogram : i.program.statements = l.statements) (hstart : loop.start = l.before.length)
    (hgoes : loop.continuesAt (x + loop.step) = true) :
    l.InRound i loop (x + loop.step) 0 (r.step []).value := by
  obtain ⟨environment, hbound, hout⟩ := h.outcome_tail
  rw [if_pos hgoes] at hout
  have hexecutes := h.executes
  rw [line_length] at hexecutes
  have hlanding : r.program.landing? r.machine.place (.moveTo (loop.start + 1)) =
      some (l.index 0) := by
    rw [hstart]
    rfl
  have hstatements : r.program.statements = l.statements := by rw [h.program, hprogram]
  obtain ⟨hvalue, hexecutes⟩ := Interpreter.executes_step_of_landing hexecutes hout hlanding
    (statementAt?_index hstatements (Nat.zero_le _))
  refine ⟨hexecutes, ?_, ?_, ?_, ?_⟩
  · rw [hvalue]
    exact h.program
  · rw [hvalue]
    rfl
  · rw [hvalue]
    exact hbound
  · rw [hvalue]
    exact h.loops

/-- Otherwise NEXT leads behind the loop. -/
theorem InRound.leave (h : l.InRound i loop x l.body.length r)
    (hprogram : i.program.statements = l.statements)
    (hends : loop.continuesAt (x + loop.step) = false) :
    l.IsLeft i (x + loop.step) (r.step []).value := by
  obtain ⟨environment, hbound, hout⟩ := h.outcome_tail
  rw [if_neg (by simp [hends])] at hout
  have hexecutes := h.executes
  rw [line_length] at hexecutes
  have hlanding : r.program.landing? r.machine.place .advance =
      some (l.index (l.body.length + 1)) := by
    rw [Program.landing?, h.place]
    rfl
  have hstatements : r.program.statements = l.statements := by rw [h.program, hprogram]
  -- FOR may have replaced an older loop of the same variable, so the loops of `i` are
  -- compared without one for it.
  have hloops : r.machine.loops.erase l.key = i.machine.loops.erase l.key := by
    rw [h.loops]
    refine Std.ExtTreeMap.ext_getElem? fun name => ?_
    simp only [Std.ExtTreeMap.getElem?_erase, Std.ExtTreeMap.getElem?_insert]
    split <;> simp_all
  have hvalue := Interpreter.value_step_of_landing hexecutes hout hlanding
  obtain ⟨hsame, hplace, henvironment, hmap⟩ :=
    Interpreter.frame_moveTo (l.index (l.body.length + 1)) (r.acted l.tail
      { machine := { r.machine with
          environment := environment
          loops := r.machine.loops.erase l.key } })
  rw [← hvalue] at hsame hplace henvironment hmap
  refine ⟨fun s hs => ?_, fun hnil => ?_, hsame.trans h.program, hplace, ?_, hmap.trans hloops⟩
  · exact (Interpreter.executes_step_of_landing hexecutes hout hlanding
      ((statementAt?_behind hstatements).trans hs)).2
  · have hsize : r.program.size ≤ l.index (l.body.length + 1) := by
      simp only [Program.size, hstatements, statements, index, List.length_append,
        List.length_cons, hnil, List.length_nil]
      omega
    rw [hvalue, Interpreter.value_moveTo]
    exact congrArg Interpreter.status (if_pos hsize)
  · rw [henvironment]
    exact hbound

/-- A round in which no statement of the body has faulted goes on as it began. -/
theorem inRound_of_zero (hprogram : i.program.statements = l.statements)
    (hzero : l.InRound i loop x 0 (i.steps (l.time k 0))) (hj : j ≤ l.body.length)
    (hquiet : l.IsQuiet i (l.time k j)) : l.InRound i loop x j (i.steps (l.time k j)) := by
  induction j with
  | zero => exact hzero
  | succ j ih =>
    have hround := ih (Nat.le_of_succ_le hj) (hquiet.mono (Nat.le_succ _))
    have hmem : l.line j ∈ l.body := by
      rw [line, List.getElem?_eq_getElem hj, Option.getD_some]
      exact List.getElem_mem hj
    have hnone := hquiet _ (Nat.lt_succ_self _) (l.line j) hmem hround.executes
    rw [time_succ, Interpreter.steps_succ]
    exact hround.advance hprogram hj hnone

/-- As long as the loop goes on, every round begins. -/
theorem inRound_of_start (hprogram : i.program.statements = l.statements)
    (hstart : loop.start = l.before.length)
    (hfirst : l.InRound i loop start 0 (i.step []).value)
    (hgoes : ∀ m < k, loop.continuesAt (loop.value start (m + 1)) = true)
    (hquiet : l.IsQuiet i (l.time k 0)) :
    l.InRound i loop (loop.value start k) 0 (i.steps (l.time k 0)) := by
  -- One round after the other: the invariant at the start of a round carries
  -- through its body to NEXT, which leads to the start of the round behind it.
  induction k with
  | zero =>
    have htime : l.time 0 0 = 0 + 1 := by simp [time]
    rw [htime, Interpreter.steps_succ]
    exact hfirst
  | succ k ih =>
    rw [time_next] at hquiet
    have hround := inRound_of_zero hprogram
      (ih (fun m hm => hgoes m (Nat.lt_succ_of_lt hm)) (hquiet.mono (by simp only [time]; omega)))
      (Nat.le_refl _) (hquiet.mono (Nat.le_succ _))
    rw [time_next, Interpreter.steps_succ]
    exact hround.again hprogram hstart (hgoes k (Nat.lt_succ_self k))

/-- A loop runs its body for exactly the right values. A program has the loop and is at
its FOR statement, and the header has numbers as its values, the step not being zero.
As long as the values of the rounds so far are within the bound, seen in the direction of
the step, and no statement of the body has faulted, each statement of the loop is executed
in each round with the value of that round. With the first value that is not within the
bound the loop is left. -/
theorem runs_rounds (l : CountedLoop) (hprogram : i.program.statements = l.statements)
    (hplace : i.machine.place = l.before.length) (hi : i.Executes l.head)
    (hvalues : ((l.header.values i.machine.environment).run.run i.generator).1 =
      .ok (.number start, .number bound, .number step))
    (hstep : (step == 0) = false) :
    let loop : ForLoop := ⟨bound, step, l.before.length⟩
    let isWithin (x : Float) : Prop := 0 < step ∧ x ≤ bound ∨ step < 0 ∧ bound ≤ x
    ∀ k, (∀ m < k, isWithin (loop.value start (m + 1))) →
      (∀ j ≤ l.body.length, l.IsQuiet i (l.time k j) →
        l.InRound i loop (loop.value start k) j (i.steps (l.time k j))) ∧
      (¬ isWithin (loop.value start (k + 1)) → l.IsQuiet i (l.time (k + 1) 0) →
        l.IsLeft i (loop.value start (k + 1)) (i.steps (l.time (k + 1) 0))) := by
  intro loop isWithin k hwithin
  have hiff (x : Float) : loop.continuesAt x = true ↔ isWithin x :=
    @ForLoop.continuesAt_iff ⟨bound, step, l.before.length⟩ x
  have hgoes (m : Nat) (hm : m < k) : loop.continuesAt (loop.value start (m + 1)) = true :=
    (hiff _).mpr (hwithin m hm)
  have hfirst : l.InRound i loop start 0 (i.step []).value := by
    have hzero := inRound_zero hprogram hplace hi hvalues hstep
    rwa [hplace] at hzero
  have hround : ∀ j ≤ l.body.length, l.IsQuiet i (l.time k j) →
      l.InRound i loop (loop.value start k) j (i.steps (l.time k j)) := by
    intro j hj hquiet
    have hzero := inRound_of_start hprogram rfl hfirst hgoes
      (hquiet.mono (by simp only [time]; omega))
    exact inRound_of_zero hprogram hzero hj hquiet
  refine ⟨hround, fun hbeyond hquiet => ?_⟩
  have hends : loop.continuesAt (loop.value start (k + 1)) = false :=
    Bool.eq_false_iff.mpr fun hgoes => hbeyond ((hiff _).mp hgoes)
  rw [time_next] at hquiet ⊢
  have hlast := hround l.body.length (Nat.le_refl _) (hquiet.mono (Nat.le_succ _))
  rw [Interpreter.steps_succ]
  exact hlast.leave hprogram hends

/-- A header with a step, a bound that is a variable, and blanks around it. -/
def upToN : Shape.LoopText := ⟨['I'], ['1'], [' ', 'N', ' '], some ['2']⟩

theorem isSpelled_upToN : upToN.IsSpelled where
  name := rfl
  start := ⟨'1', by simp [upToN], by decide⟩
  bound := ⟨'N', by simp [upToN], by decide⟩
  step := by
    rintro step ⟨⟩
    exact ⟨'2', by simp, by decide⟩
  start_free := by decide +kernel
  bound_free := by decide +kernel

def lowersN : List Statement :=
  [⟨130, "LET N = 0", Nat.succ_pos _⟩, ⟨140, "PRINT I", Nat.succ_pos _⟩]

theorem isPlain_lowersN :
    ∀ s ∈ lowersN,
      (Command.ofText (trimString s.code)).IsPlain (String.ofList (upper upToN.name)) := by
  decide +kernel

def shrinkingBound : CountedLoop where
  before := [⟨110, "LET N = 4", Nat.succ_pos _⟩]
  head := ⟨120, "FOR I = 1 TO  N  STEP 2", Nat.succ_pos _⟩
  parts := upToN
  body := lowersN
  tail := ⟨150, "NEXT I", Nat.succ_pos _⟩
  behind := []
  isSpelled := isSpelled_upToN
  isAscii := rfl
  head_code := rfl
  tail_code := rfl
  isPlain := isPlain_lowersN

/-- The loop is entered for one and three, and is left with five. -/
theorem runs_rounds_at_shrinkingBound :
    let i : Interpreter := (({
      program := ⟨shrinkingBound.statements, by decide⟩
      generator := ⟨#[], 0⟩ } : Interpreter).start.value.step []).value
    shrinkingBound.InRound i ⟨4, 2, 1⟩ 3 1 (i.steps 5) ∧
      shrinkingBound.IsLeft i 5 (i.steps 7) := by
  intro i
  have hprogram : i.program.statements = shrinkingBound.statements := by decide +kernel
  have hexecutes : i.Executes shrinkingBound.head := by decide +kernel
  have hvalues : ((shrinkingBound.header.values i.machine.environment).run.run i.generator).1 =
      .ok (.number 1, .number 4, .number 2) := by
    decide +kernel
  have hwithin : ∀ m < 1, (0 : Float) < 2 ∧ ForLoop.value ⟨4, 2, 1⟩ 1 (m + 1) ≤ 4 ∨
      (2 : Float) < 0 ∧ 4 ≤ ForLoop.value ⟨4, 2, 1⟩ 1 (m + 1) := by
    decide +kernel
  have hbeyond : ¬ ((0 : Float) < 2 ∧ ForLoop.value ⟨4, 2, 1⟩ 1 2 ≤ 4 ∨
      (2 : Float) < 0 ∧ 4 ≤ ForLoop.value ⟨4, 2, 1⟩ 1 2) := by
    decide +kernel
  have hquiet : shrinkingBound.IsQuiet i 7 := by decide +kernel
  have hthree : ForLoop.value ⟨4, 2, 1⟩ 1 1 = 3 := by decide +kernel
  have hfive : ForLoop.value ⟨4, 2, 1⟩ 1 2 = 5 := by decide +kernel
  obtain ⟨hround, hleft⟩ := runs_rounds shrinkingBound hprogram (by decide +kernel) hexecutes
    hvalues (by decide +kernel) 1 hwithin
  have hone := hround 1 (by decide) (hquiet.mono (by decide))
  have hlast := hleft hbeyond hquiet
  rw [← hthree, ← hfive]
  exact ⟨hone, hlast⟩

end CountedLoop

end LineBasic
