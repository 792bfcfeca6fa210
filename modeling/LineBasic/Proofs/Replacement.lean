import LineBasic.Proofs.Abandonment

/-!
Programs that differ in the code of their statements only. A run goes the same way
through programs with the same line numbers, as long as its statements have the same
outcomes: `perform_load`.
-/

namespace LineBasic

/-- The code of a statement is not its line number. -/
theorem Statement.map_number_modify (statements : List Statement) (index : Nat) (code : String) :
    (statements.modify index fun s => { s with code := code }).map Statement.number =
      statements.map Statement.number := by
  apply List.ext_getElem?
  intro k
  rw [List.getElem?_map, List.getElem?_map, List.getElem?_modify]
  cases statements[k]? with
  | none => rfl
  | some s => by_cases hk : index = k <;> simp [hk]

def Program.withCode (p : Program) (index : Nat) (code : String) : Program where
  statements := p.statements.modify index fun s => { s with code := code }
  ascending := by
    have hascending := List.pairwise_map.mpr p.ascending
    rw [← Statement.map_number_modify p.statements index code] at hascending
    exact List.pairwise_map.mp hascending

def Program.SameLines (p q : Program) : Prop :=
  p.statements.map Statement.number = q.statements.map Statement.number

section Programs

variable {p q : Program} {index : Nat} {code : String}

theorem Program.sameLines_withCode (p : Program) (index : Nat) (code : String) :
    (p.withCode index code).SameLines p :=
  Statement.map_number_modify p.statements index code

theorem Program.statementAt?_withCode {s : Statement} (h : p.statementAt? index = some s) :
    (p.withCode index code).statementAt? index = some { s with code := code } := by
  rw [statementAt?] at h
  rw [statementAt?, withCode, List.getElem?_modify, h]
  simp

theorem Program.SameLines.size_eq (h : p.SameLines q) : p.size = q.size := by
  have hlength := congrArg List.length h
  rwa [List.length_map, List.length_map] at hlength

theorem Program.SameLines.indexOf?_eq (h : p.SameLines q) (number : Nat) :
    p.indexOf? number = q.indexOf? number := by
  have hnumbers : p.lineNumbers = q.lineNumbers := h
  rw [indexOf?, indexOf?, hnumbers, h.size_eq]

end Programs

namespace Interpreter

section Loaded

variable {i : Interpreter} {q : Program} {requests : List Request} {line : Nat}

theorem asked_load (i : Interpreter) (requests : List Request) :
    (i.load q).asked requests = (i.asked requests).load q := by
  unfold asked
  simp only
  split <;> split <;> first | rfl | contradiction

theorem value_fail_load (f : Fault) : ((i.load q).fail requests line f).value =
    (i.fail requests line f).value.load q := by
  rw [value_fail, value_fail]
  exact congrArg ended (asked_load { i with fault := some f } requests)

/-- A program with the same lines is gone through alike. -/
theorem value_moveTo_load (h : q.SameLines i.program) (index : Nat) :
    ((i.load q).moveTo index).value = (i.moveTo index).value.load q := by
  have hsize : (i.load q).program.size = i.program.size := h.size_eq
  rw [value_moveTo, value_moveTo, hsize]
  split <;> rfl

theorem value_follow_load (h : q.SameLines i.program) (t : Transfer) :
    ((i.load q).follow requests line t).value = (i.follow requests line t).value.load q := by
  cases t with
  | advance => exact value_moveTo_load h _
  | moveTo index => exact value_moveTo_load h index
  | finish => rfl
  | await name prompt => rfl
  | jump target =>
    cases target with
    | oversized digits => rfl
    | line number =>
      have hindex : (i.load q).program.indexOf? number = i.program.indexOf? number :=
        h.indexOf?_eq number
      simp only [follow, hindex]
      cases i.program.indexOf? number with
      | none => exact value_fail_load _
      | some index => exact value_moveTo_load h index

theorem lines_follow_load (h : q.SameLines i.program) (t : Transfer) :
    Event.lines ((i.load q).follow requests line t).events =
      Event.lines (i.follow requests line t).events := by
  cases t with
  | jump target =>
    cases target with
    | oversized digits => rfl
    | line number =>
      have hindex : (i.load q).program.indexOf? number = i.program.indexOf? number :=
        h.indexOf?_eq number
      simp only [follow, hindex]
      cases i.program.indexOf? number with
      | none => simp
      | some index => simp
  | _ => simp [follow]

theorem enact_load (h : q.SameLines i.program) (effect : Effect) :
    ((i.load q).enact requests line effect).value =
        (i.enact requests line effect).value.load q ∧
      Event.lines ((i.load q).enact requests line effect).events =
        Event.lines (i.enact requests line effect).events := by
  unfold enact
  cases effect.output with
  | none =>
    have hlines : q.SameLines ({ i with machine := effect.machine } : Interpreter).program := h
    exact ⟨value_follow_load hlines _, lines_follow_load hlines _⟩
  | some text =>
    have hasked := asked_load (q := q) { i with machine := effect.machine } requests
    have hlines : q.SameLines
        (({ i with machine := effect.machine } : Interpreter).asked requests).program := by
      rw [program_asked]
      exact h
    simp only [Logged.value_bind, Logged.events_bind, value_output, lines_output,
      Event.lines_append]
    refine ⟨?_, congrArg ([text] ++ ·) ?_⟩
    · exact (congrArg (fun j => (j.follow requests line effect.transfer).value) hasked).trans
        (value_follow_load hlines _)
    · exact (congrArg (fun j => Event.lines (j.follow requests line effect.transfer).events)
        hasked).trans (lines_follow_load hlines _)

/-- Two statements with the same outcome are performed alike in programs with the same
lines. -/
theorem perform_load {j : Interpreter} {s s' : Statement} (h : j.program.SameLines i.program)
    (hj : j.drawn s' = (i.drawn s).load j.program) (hnumber : s'.number = s.number)
    (hresult : (j.outcome s').1 = (i.outcome s).1) (requests : List Request) :
    (j.perform requests s').value = (i.perform requests s).value.load j.program ∧
      Event.lines (j.perform requests s').events = Event.lines (i.perform requests s).events := by
  have hlines : j.program.SameLines (i.drawn s).program := h
  cases hout : (i.outcome s).1 with
  | error f =>
    rw [hout] at hresult
    rw [value_perform_of_error hout, value_perform_of_error hresult,
      lines_perform_of_error hout, lines_perform_of_error hresult, hj, hnumber]
    exact ⟨value_fail_load f, rfl⟩
  | ok effect =>
    rw [hout] at hresult
    rw [value_perform_of_ok hout, value_perform_of_ok hresult, lines_perform_of_ok hout,
      lines_perform_of_ok hresult, hj, hnumber]
    exact enact_load hlines effect

end Loaded

end Interpreter

end LineBasic
