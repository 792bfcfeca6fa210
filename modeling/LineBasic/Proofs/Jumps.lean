import LineBasic.Proofs.Listings
import LineBasic.Proofs.NestedBranches

/-!
Jumps. Behind GOTO and GOSUB, and as the clause of branches, digits lead to the statement
whose line number they spell, with leading zeros or without, whatever the order of the
lines in the program's text. Where no line has the number, that is the fault. More digits
than the host reads lead nowhere: the step breaks off, and a call has taken place by then.
-/

namespace LineBasic

open Text

namespace Shape

inductive IsNumbered (k : Keyword) (digits : List Char) : List Char → Prop
  | spelled {word blanks : List Char} (hword : upper word = k.word.toList)
      (hletters : ∀ c ∈ word, isLetter c = true) (hne : blanks ≠ [])
      (hblanks : ∀ c ∈ blanks, isBlank c = true) : IsNumbered k digits (word ++ (blanks ++ digits))

section Numbered

variable {k : Keyword} {digits statement : List Char}

theorem hasEdges_digits (hne : digits ≠ []) (hdigits : digits.all isDigit = true) :
    HasEdges digits :=
  hasEdges_of_forall hne fun c hc => isBlank_of_isDigit (List.all_eq_true.mp hdigits c hc)

theorem ne_nil_of_upper {word : List Char} (hword : upper word = k.word.toList) : word ≠ [] := by
  rintro rfl
  cases k <;> cases hword

/-- Such a text starts with a letter. -/
theorem IsNumbered.first (h : IsNumbered k digits statement) :
    ∃ c rest, statement = c :: rest ∧ isLetter c = true := by
  obtain ⟨hword, hletters, -, -⟩ := h
  obtain ⟨c, word, rfl⟩ := List.exists_cons_of_ne_nil (ne_nil_of_upper hword)
  exact ⟨c, _, rfl, hletters c List.mem_cons_self⟩

theorem IsNumbered.hasEdges (h : IsNumbered k digits statement) (hne : digits ≠ [])
    (hdigits : digits.all isDigit = true) : HasEdges statement := by
  obtain ⟨hword, hletters, -, -⟩ := h
  have hedges := hasEdges_of_forall (ne_nil_of_upper hword) fun c hc =>
    isBlank_of_isWord (isWord_of_isLetter (hletters c hc))
  exact hedges.append (hasEdges_digits hne hdigits) _

theorem IsNumbered.keyword? (h : IsNumbered k digits statement) :
    ∃ rest, Shape.keyword? statement = some (k, rest) ∧ trim rest = trim digits := by
  obtain ⟨hword, hletters, hne, hblanks⟩ := h
  refine ⟨_, keyword?_append hletters hword ?_, trim_append_of_isBlank hblanks digits⟩
  obtain ⟨b, blanks, rfl⟩ := List.exists_cons_of_ne_nil hne
  refine stopsAt_cons (Bool.eq_false_iff.mpr fun hb => ?_)
  have hblank := hblanks b List.mem_cons_self
  rw [isBlank_of_isWord hb] at hblank
  cases hblank

end Numbered

end Shape

namespace Command

inductive LeadsTo (digits : List Char) : Command → List Char → Prop
  | bare : LeadsTo digits (.goto (.ofDigits digits)) digits
  | goto {statement : List Char} (h : Shape.IsNumbered .GOTO digits statement) :
      LeadsTo digits (.goto (.ofDigits digits)) statement
  | gosub {statement : List Char} (h : Shape.IsNumbered .GOSUB digits statement) :
      LeadsTo digits (.gosub (.ofDigits digits)) statement

/-- The indices to return to once a command has been carried out at a place: a call adds
the one behind itself. -/
def returnsAt (place : Nat) (returns : List Nat) : Command → List Nat
  | .gosub _ => (place + 1) :: returns
  | _ => returns

section Leads

variable {digits statement : List Char} {c : Command}

theorem LeadsTo.hasEdges (h : LeadsTo digits c statement) (hne : digits ≠ [])
    (hdigits : digits.all isDigit = true) : HasEdges statement := by
  cases h with
  | bare => exact Shape.hasEdges_digits hne hdigits
  | goto h | gosub h => exact h.hasEdges hne hdigits

theorem bareText_of_isNumbered {k : Keyword} (h : Shape.IsNumbered k digits statement) :
    bareText statement = statement := by
  obtain ⟨c, rest, rfl, hletter⟩ := h.first
  have hdigit : isDigit c = false := by
    refine Bool.eq_false_iff.mpr fun hdigit => ?_
    have hstart := isNameStart_of_isDigit hdigit
    simp [isNameStart, hletter] at hstart
  exact if_neg (by simp [hdigit])

/-- Such a statement is read as its command. -/
theorem LeadsTo.ofTrimmed (h : LeadsTo digits c statement) (hne : digits ≠ [])
    (hdigits : digits.all isDigit = true) : ofTrimmed (bareText statement) = c := by
  have hedges := Shape.hasEdges_digits hne hdigits
  cases h with
  | bare =>
    rw [bareText, if_pos hdigits]
    exact ofTrimmed_goto hedges hdigits
  | goto h | gosub h =>
    obtain ⟨rest, hk, htrim⟩ := h.keyword?
    have htarget := Shape.target?_of_trim (htrim.trans hedges.trim) hne hdigits
    rw [bareText_of_isNumbered h, Command.ofTrimmed_eq]
    simp only [hk, htarget]

theorem LeadsTo.execute (h : LeadsTo digits c statement) (line : Nat) (e : Execution) :
    (c.execute line).run.run e = (.ok (.jump (.ofDigits digits)), { e with
      machine := { e.machine with
        returns := c.returnsAt e.machine.place e.machine.returns } }) := by
  cases h with
  | bare | goto | gosub => rfl

end Leads

end Command

/-- The statements of a loaded program are those that its lines spell. -/
theorem Program.forall_statements_iff {lines : List String} {p : Program}
    (hload : load lines = .ok p) {q : Statement → Prop} :
    (∀ t ∈ p.statements, q t) ↔ ∀ line ∈ lines, ∀ t, Spells line t → q t := by
  obtain ⟨hlines, hstatements⟩ := spells_of_load hload
  constructor
  · intro h line hline t ht
    rcases hlines line hline with hskipped | ⟨s, hs, hspells⟩
    · exact absurd hskipped (by simp [ht.not_isSkipped])
    · exact ht.unique hspells ▸ h s hs
  · intro h t ht
    obtain ⟨line, hline, hspells⟩ := hstatements t ht
    exact h line hline t hspells

namespace Interpreter

structure Jumps (i : Interpreter) (s : Statement) (c : Command) (digits : List Char)
    (g : Generator) : Prop where
  executes : i.Executes s
  ne_nil : digits ≠ []
  all_isDigit : digits.all isDigit = true
  leads : ∃ conditions statement, Command.LeadsTo digits c statement ∧
    (∀ d ∈ conditions, Command.IsCondition d) ∧
    trimString s.code = String.ofList (Command.bareText (Command.branchText conditions statement)) ∧
    (Condition.allHold i.machine.environment conditions).run.run i.generator = (.ok true, g)

/-- The interpreter that a jump leads to: at an index, and about to return behind where it
was if the jump is a call. -/
def jumped (c : Command) (g : Generator) (index : Nat) (i : Interpreter) : Interpreter :=
  { i with
    machine := { i.machine with
      place := index
      returns := c.returnsAt i.machine.place i.machine.returns }
    generator := g }

section Jumps

variable {i : Interpreter} {s : Statement} {c : Command} {digits : List Char} {g : Generator}
  {index : Nat}

/-- Before its line is looked up a jump does nothing but draw what its conditions draw,
and remember where to return to. -/
theorem Jumps.outcome (h : i.Jumps s c digits g) :
    (i.outcome s).1 = .ok {
        machine := { i.machine with returns := c.returnsAt i.machine.place i.machine.returns }
        transfer := .jump (.ofDigits digits) } ∧
      (i.outcome s).2.generator = g := by
  obtain ⟨conditions, statement, hleads, hconditions, hcode, hall⟩ := h.leads
  obtain ⟨notes, hexecute⟩ := Command.execute_branchText s.number hconditions
    (hleads.hasEdges h.ne_nil h.all_isDigit) (e := i.begun s) hall
  rw [hleads.ofTrimmed h.ne_nil h.all_isDigit, hleads.execute,
    ← Command.ofText_trimString hcode, ← execution_eq] at hexecute
  rw [Interpreter.outcome, hexecute]
  exact ⟨rfl, rfl⟩

/-- A step that leads to a line of the program is at that line, and outputs nothing. -/
theorem step_of_jump {effect : Effect} {target index : Nat} (hexecutes : i.Executes s)
    (hout : (i.outcome s).1 = .ok effect) (htarget : effect.transfer = .jump (.line target))
    (hindex : i.program.indexOf? target = some index) (requests : List Request) :
    (i.step requests).value = (i.acted s effect).placed index ∧
      Event.lines (i.step requests).events = [] := by
  have hsilent : effect.output = none :=
    (allows_of_outcome hout).output_eq_none (by simp [htarget])
  have hinside : ¬ i.program.size ≤ index := by
    obtain ⟨t, ht, -⟩ := Program.indexOf?_eq_some_iff.mp hindex
    exact Nat.not_le_of_lt (List.getElem?_eq_some_iff.mp ht).1
  have hplaced : ((i.acted s effect).moveTo index).value = (i.acted s effect).placed index := by
    rw [value_moveTo, program_acted, if_neg hinside]
  obtain ⟨hvalue, hlines⟩ := step_of_silent requests hexecutes hout hsilent
  rw [hvalue, hlines, htarget]
  simp only [follow, program_acted, hindex, Logged.value_bind, Logged.events_bind,
    Event.lines_append, lines_note, lines_moveTo, hplaced, List.nil_append, true_and]

theorem Jumps.step_of_found (h : i.Jumps s c digits g) (hlength : digits.length ≤ maxDigits)
    (hindex : i.program.indexOf? (digitsValue digits) = some index) (requests : List Request) :
    (i.step requests).value = i.jumped c g index ∧ Event.lines (i.step requests).events = [] := by
  obtain ⟨hout, hgenerator⟩ := h.outcome
  rw [LineNumber.ofDigits_of_le hlength] at hout
  obtain ⟨hvalue, hlines⟩ := step_of_jump h.executes hout rfl hindex requests
  refine ⟨?_, hlines⟩
  rw [hvalue, acted, drawn, hgenerator]
  rfl

theorem Jumps.reports_of_missing (h : i.Jumps s c digits g) (hlength : digits.length ≤ maxDigits)
    (hmissing : i.program.indexOf? (digitsValue digits) = none) (requests : List Request) :
    i.Reports s.number (.missingLine (digitsValue digits)) (i.step requests) := by
  refine reports_of_raised h.executes ?_ requests
  simp only [raised?, h.outcome.1, LineNumber.ofDigits_of_le hlength, hmissing, if_true]

theorem Jumps.breaksOff (h : i.Jumps s c digits g) :
    i.breaksOff? s = (Transfer.jump (.ofDigits digits)).oversized? := by
  rw [breaksOff?, h.outcome.1]

/-- With too many digits a jump leads nowhere, and a call has been remembered. -/
theorem Jumps.step_of_oversized (h : i.Jumps s c digits g) (hlong : maxDigits < digits.length)
    (requests : List Request) :
    (i.step requests).value = i.jumped c g i.machine.place ∧
      Event.lines (i.step requests).events = [] := by
  obtain ⟨hout, hgenerator⟩ := h.outcome
  have hbreaks := h.breaksOff
  rw [LineNumber.ofDigits_of_lt hlong] at hbreaks
  obtain ⟨effect, heffect, -, hvalue, hlines⟩ := step_of_breaksOff h.executes hbreaks requests
  cases hout.symm.trans heffect
  refine ⟨?_, hlines⟩
  rw [hvalue, drawn, hgenerator]
  rfl

/-- Jumps find exactly their line, in whatever order the lines of the program were loaded.
The index of a number is that of the statement that has it, and there is none exactly if
no statement has it, which is if no line spells one. A step on a jump is then at the
statement, or it reports the missing line, and it breaks off exactly if the number is
spelled with more digits than the host reads: then it is still at its own statement, and
a call has already put the index behind itself on top. -/
theorem jumps_find_their_line {lines : List String} {p : Program}
    (hload : Program.load lines = .ok p) :
    (∀ number index, p.indexOf? number = some index ↔
        ∃ t, p.statementAt? index = some t ∧ t.number = number) ∧
      (∀ number, p.indexOf? number = none ↔ ∀ t ∈ p.statements, t.number ≠ number) ∧
      (∀ number, p.indexOf? number = none ↔
        ∀ line ∈ lines, ∀ t, Program.Spells line t → t.number ≠ number) ∧
      ∀ (i : Interpreter) s c digits g, i.program = p → i.Jumps s c digits g → ∀ requests,
        (∀ length, Event.oversized? (i.step requests).events = some length ↔
          maxDigits < digits.length ∧ length = digits.length) ∧
        (digits.length ≤ maxDigits →
          (∀ index t, p.statementAt? index = some t → t.number = digitsValue digits →
            (i.step requests).value = i.jumped c g index ∧
              Event.lines (i.step requests).events = []) ∧
          (i.Reports s.number (.missingLine (digitsValue digits)) (i.step requests) ↔
            ∀ t ∈ p.statements, t.number ≠ digitsValue digits)) ∧
        (maxDigits < digits.length →
          (i.step requests).value = i.jumped c g i.machine.place ∧
            Event.lines (i.step requests).events = []) := by
  refine ⟨fun _ _ => Program.indexOf?_eq_some_iff, fun _ => Program.indexOf?_eq_none_iff,
    fun _ => ?_, ?_⟩
  · rw [Program.indexOf?_eq_none_iff, Program.forall_statements_iff hload]
  · rintro i s c digits g rfl hjumps requests
    refine ⟨fun length => ?_, fun hlength => ?_, fun hlong => hjumps.step_of_oversized hlong _⟩
    · rw [oversized?_step hjumps.executes, hjumps.breaksOff, Transfer.oversized?_eq_some_iff,
        Transfer.jump.injEq, LineNumber.ofDigits_eq_oversized_iff]
    have hfound (index : Nat) (t : Statement) (ht : i.program.statementAt? index = some t)
        (hnumber : t.number = digitsValue digits) :=
      hjumps.step_of_found hlength (Program.indexOf?_eq_some_iff.mpr ⟨t, ht, hnumber⟩) requests
    refine ⟨hfound, fun hreports t ht hnumber => ?_, fun hmissing => ?_⟩
    · obtain ⟨index, hindex⟩ := List.mem_iff_getElem?.mp ht
      have hlines := hreports.lines
      rw [(hfound index t hindex hnumber).2] at hlines
      cases hlines
    · exact hjumps.reports_of_missing hlength (Program.indexOf?_eq_none_iff.mpr hmissing) requests

/-- Lines that are not in order, one of them blank. A jump is written in lower case, and
two line numbers with leading zeros or in other digits. -/
def shuffledJumps : List String :=
  ["30 goto  0010", "", "10 GOSUB ٣٠", "20 IF 1 < 2 THEN 25"]

def jumping (index : Nat) : Interpreter where
  program := (Program.load shuffledJumps).toOption.getD .empty
  machine := { place := index, running := true }
  status := .running
  generator := ⟨#[], 0⟩

/-- The call and the jump lead to each other's lines, and the branch to no line. -/
theorem jumps_find_their_line_at_shuffledJumps :
    ((jumping 0).step []).value =
        { jumping 2 with machine := { (jumping 2).machine with returns := [1] } } ∧
      ((jumping 2).step []).value = jumping 0 ∧
      Event.lines ((jumping 1).step []).events =
        ["Error at line 20: Line 25 does not exist"] := by
  have hload : Program.load shuffledJumps = .ok (jumping 0).program := by decide +kernel
  obtain ⟨-, -, -, hsteps⟩ := jumps_find_their_line hload
  have hgosub : Shape.IsNumbered .GOSUB "٣٠".toList ("GOSUB".toList ++ ([' '] ++ "٣٠".toList)) :=
    .spelled (by decide +kernel) (forall_mem_of_all (by decide)) (by simp) (by simp [isBlank])
  have hgoto : Shape.IsNumbered .GOTO "0010".toList
      ("goto".toList ++ ([' ', ' '] ++ "0010".toList)) :=
    .spelled (by decide +kernel) (forall_mem_of_all (by decide)) (by simp) (by simp [isBlank])
  have hcall : (jumping 0).Jumps ⟨10, "GOSUB ٣٠", by decide⟩ (.gosub (.line 30)) "٣٠".toList ⟨#[], 0⟩ :=
    { executes := ⟨rfl, rfl, rfl, by decide +kernel⟩
      ne_nil := by decide
      all_isDigit := by decide +kernel
      leads := ⟨[], _, .gosub hgosub, by simp, by decide +kernel, rfl⟩ }
  have hjump : (jumping 2).Jumps ⟨30, "goto  0010", by decide⟩ (.goto (.line 10)) "0010".toList ⟨#[], 0⟩ :=
    { executes := ⟨rfl, rfl, rfl, by decide +kernel⟩
      ne_nil := by decide
      all_isDigit := by decide +kernel
      leads := ⟨[], _, .goto hgoto, by simp, by decide +kernel, rfl⟩ }
  have hcondition : Command.IsCondition "1 < 2".toList :=
    ⟨⟨⟨'1', " < 2".toList, rfl, by decide⟩, "1 < ".toList, '2', rfl, by decide⟩, by decide +kernel⟩
  have hbranch : (jumping 1).Jumps ⟨20, "IF 1 < 2 THEN 25", by decide⟩ (.goto (.line 25)) "25".toList
      ⟨#[], 0⟩ :=
    { executes := ⟨rfl, rfl, rfl, by decide +kernel⟩
      ne_nil := by decide
      all_isDigit := by decide +kernel
      leads := ⟨["1 < 2".toList], "25".toList, .bare, List.forall_mem_singleton.mpr hcondition,
        by decide +kernel, Prod.ext (by decide +kernel) (by decide +kernel)⟩ }
  have hthirty : (jumping 0).program.statementAt? 2 = some ⟨30, "goto  0010", by decide⟩ := by
    decide +kernel
  have hten : (jumping 0).program.statementAt? 0 = some ⟨10, "GOSUB ٣٠", by decide⟩ := by
    decide +kernel
  have hmissing : ∀ t ∈ (jumping 0).program.statements, t.number ≠ 25 := by decide +kernel
  refine ⟨?_, ?_, ?_⟩
  · obtain ⟨hfound, -⟩ := (hsteps (jumping 0) _ _ _ _ rfl hcall []).2.1 (by decide)
    exact (hfound 2 _ hthirty (by decide +kernel)).1
  · obtain ⟨hfound, -⟩ := (hsteps (jumping 2) _ _ _ _ rfl hjump []).2.1 (by decide)
    exact (hfound 0 _ hten (by decide +kernel)).1
  · obtain ⟨-, hreports⟩ := (hsteps (jumping 1) _ _ _ _ rfl hbranch []).2.1 (by decide)
    exact (hreports.mpr hmissing).lines

def overlongJump : Program where
  statements := [⟨10, "GOTO " ++ String.ofList (LineNumber.overlong 20), Nat.le_add_left 1 9⟩,
    ⟨20, "PRINT 1", Nat.le_add_left 1 19⟩]
  ascending := List.pairwise_pair.mpr (show 10 < 20 by decide)

/-- The jump leads nowhere, because of the zeros in front of the line number. -/
theorem jump_breaks_off_at_overlongJump :
    let i : Interpreter := {
      program := overlongJump, machine := { running := true }, status := .running
      generator := ⟨#[], 0⟩ }
    (∃ lines, Program.load lines = .ok overlongJump) ∧ overlongJump.indexOf? 20 = some 1 ∧
      digitsValue (LineNumber.overlong 20) = 20 ∧
      Event.oversized? (i.step []).events = some 4302 ∧ (i.step []).value = i := by
  intro i
  have hdigits : (LineNumber.overlong 20).all isDigit = true :=
    List.all_eq_true.mpr fun c hc => LineNumber.isDigit_of_mem_overlong hc
  have hgoto : Shape.IsNumbered .GOTO (LineNumber.overlong 20)
      ("GOTO".toList ++ ([' '] ++ LineNumber.overlong 20)) :=
    .spelled (by decide) (forall_mem_of_all (by decide)) (by simp) (by simp [isBlank])
  have hcode : ("GOTO " ++ String.ofList (LineNumber.overlong 20)).toList =
      "GOTO".toList ++ ([' '] ++ LineNumber.overlong 20) := by
    simp
  have hedges := hgoto.hasEdges (LineNumber.overlong_ne_nil 20) hdigits
  rw [← hcode] at hedges
  have hload : Program.load (overlongJump.statements.map Statement.display) = .ok overlongJump := by
    refine Program.load_printed (List.forall_mem_cons.mpr ⟨⟨by decide, hedges⟩, ?_⟩) (.refl _)
    exact List.forall_mem_singleton.mpr
      ⟨by decide, ⟨'P', "RINT 1".toList, rfl, by decide⟩, "PRINT ".toList, '1', rfl, by decide⟩
  have hindex : overlongJump.indexOf? 20 = some 1 :=
    Program.indexOf?_eq_some_iff.mpr ⟨⟨20, "PRINT 1", by decide⟩, rfl, rfl⟩
  have hjumps : i.Jumps ⟨10, "GOTO " ++ String.ofList (LineNumber.overlong 20), by decide⟩
      (.goto (.ofDigits (LineNumber.overlong 20))) (LineNumber.overlong 20) ⟨#[], 0⟩ :=
    { executes := ⟨rfl, rfl, rfl, rfl⟩
      ne_nil := LineNumber.overlong_ne_nil 20
      all_isDigit := hdigits
      leads := by
        refine ⟨[], _, .goto hgoto, by simp, ?_, rfl⟩
        rw [hedges.trimString]
        change _ = String.ofList
          (Command.bareText ("GOTO".toList ++ ([' '] ++ LineNumber.overlong 20)))
        rw [Command.bareText_of_isNumbered hgoto, ← hcode, String.ofList_toList] }
  have hlong := LineNumber.maxDigits_lt_length_overlong 20
  have hlength : 4302 = (LineNumber.overlong 20).length := (LineNumber.length_overlong 20).symm
  have hbreaks : Event.oversized? (i.step []).events = some 4302 := by
    rw [oversized?_step hjumps.executes, hjumps.breaksOff, Transfer.oversized?_eq_some_iff,
      LineNumber.ofDigits_of_lt hlong, ← hlength]
  exact ⟨⟨_, hload⟩, hindex, LineNumber.digitsValue_overlong 20, hbreaks,
    (hjumps.step_of_oversized hlong []).1⟩

end Jumps

end Interpreter

end LineBasic
