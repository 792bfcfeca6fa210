import LineBasic.Proofs.Invariant

/-!
Which command a statement comes to. A command inside the clauses of branches is
carried out only if all their conditions hold, one after another.
`Command.reached?` finds it from the conditions alone, and executing the
statement is executing what it comes to: `outcome_of_reached` and
`outcome_of_not_reached`.
-/

namespace LineBasic

namespace Command

/-- The command that is carried out, and the generator by then; `none` if the
condition of a branch on the way does not hold or cannot be decided. -/
def reached? (m : Machine) : Command → Generator → Option (Command × Generator)
  | .branch condition _ body, g =>
    match (Condition.holds m.environment condition).run.run g with
    | (.ok true, g) => body.reached? m g
    | _ => none
  | c, g => some (c, g)

variable {m : Machine} {c c' : Command} {g g' : Generator}

/-- Only the innermost clause can be reached. -/
theorem eq_innermost_of_reached (h : c.reached? m g = some (c', g')) : c' = c.innermost := by
  induction c generalizing g with
  | branch condition clause body ih =>
    rw [reached?] at h
    split at h
    · exact ih h
    · cases h
  | _ =>
    cases h
    rfl

end Command

namespace Command

variable (line : Nat) {e : Execution} {c c' : Command} {g g' : Generator}

/-- Executing a command is executing what it comes to. -/
theorem execute_of_reached (h : c.reached? e.machine e.generator = some (c', g')) :
    ∃ notes, (c.execute line).run.run e =
      (c'.execute line).run.run { e with generator := g', notes := notes } := by
  induction c generalizing e with
  | branch condition clause body ih =>
    rw [reached?] at h
    split at h
    · next g₁ hholds =>
      obtain ⟨notes, hbranch⟩ := Exec.run_branch e line condition clause body
      simp only [hholds] at hbranch
      rw [hbranch]
      exact ih (e := { e with generator := g₁, notes := notes }) h
    · cases h
  | _ =>
    cases h
    exact ⟨e.notes, rfl⟩

/-- A command that comes to nothing faults in a condition, or does nothing. -/
theorem execute_of_not_reached (h : c.reached? e.machine e.generator = none) :
    (∃ f, ((c.execute line).run.run e).1 = .error f) ∨ ∃ generator notes,
      (c.execute line).run.run e = (.ok .advance, { e with generator, notes }) := by
  induction c generalizing e with
  | branch condition clause body ih =>
    obtain ⟨notes, hbranch⟩ := Exec.run_branch e line condition clause body
    rw [hbranch]
    rw [reached?] at h
    split
    · next g₁ hholds =>
      rw [hholds] at h
      exact ih (e := { e with generator := g₁, notes := notes }) h
    · next g₁ hholds => exact .inr ⟨g₁, notes, rfl⟩
    · next f g₁ hholds => exact .inl ⟨f, rfl⟩
  | _ => cases h

end Command

namespace Interpreter

def reached? (s : Statement) (i : Interpreter) : Option Command :=
  ((Command.ofText (Text.trimString s.code)).reached? i.machine i.generator).map Prod.fst

variable {i : Interpreter} {s : Statement} {c : Command} {effect : Effect}

theorem eq_action_of_reached (h : i.reached? s = some c) : c = s.action := by
  obtain ⟨⟨c', g⟩, hreached, rfl⟩ := Option.map_eq_some_iff.mp h
  exact Command.eq_innermost_of_reached hreached

/-- The execution of a statement is that of the command it comes to. -/
theorem execution_of_reached (h : i.reached? s = some c) : ∃ generator notes,
    i.execution s = (c.execute s.number).run.run { machine := i.machine, generator, notes } := by
  obtain ⟨⟨c', g⟩, hreached, rfl⟩ := Option.map_eq_some_iff.mp h
  obtain ⟨notes, hexecute⟩ :=
    Command.execute_of_reached s.number (e := i.begun s) hreached
  exact ⟨g, notes, hexecute⟩

theorem outcome_of_not_reached (h : i.reached? s = none) :
    (∃ f, (i.outcome s).1 = .error f) ∨ (i.outcome s).1 = .ok { machine := i.machine } := by
  have hexecute := Command.execute_of_not_reached s.number (e := i.begun s)
    (Option.map_eq_none_iff.mp h)
  rw [← execution_eq] at hexecute
  rcases hexecute with ⟨f, hf⟩ | ⟨generator, notes, hskip⟩
  · refine .inl ⟨f, ?_⟩
    simp only [outcome, hf]
    rfl
  · refine .inr ?_
    simp only [outcome, hskip]
    rfl

/-- A call puts the index behind itself on top and jumps, whether or not its
line exists. -/
theorem outcome_of_gosub {target : LineNumber} (h : i.reached? s = some (.gosub target)) :
    (i.outcome s).1 = .ok {
      machine := { i.machine with returns := (i.machine.place + 1) :: i.machine.returns }
      transfer := .jump target } := by
  obtain ⟨generator, notes, hout⟩ := execution_of_reached h
  rw [outcome, hout]
  rfl

/-- A return goes to the index on top, if there is one. -/
theorem outcome_of_ret (h : i.reached? s = some .ret) :
    (i.outcome s).1 = match i.machine.returns with
      | [] => .error .returnWithoutGosub
      | index :: returns =>
        .ok { machine := { i.machine with returns := returns }, transfer := .moveTo index } := by
  obtain ⟨generator, notes, hout⟩ := execution_of_reached h
  rw [outcome, hout, Command.execute, run_run_bind, Exec.run_machine]
  dsimp only
  cases i.machine.returns <;> rfl

/-- A statement that comes to neither a call nor a return leaves the indices to
return to as they are. -/
theorem returns_of_outcome (h : (i.outcome s).1 = .ok effect)
    (hcall : ∀ target, i.reached? s ≠ some (.gosub target)) (hret : i.reached? s ≠ some .ret) :
    effect.machine.returns = i.machine.returns := by
  cases hreached : i.reached? s with
  | none =>
    rcases outcome_of_not_reached hreached with ⟨f, hf⟩ | hskip
    · rw [h] at hf
      cases hf
    · rw [h] at hskip
      cases hskip
      rfl
  | some c =>
    have heffect := allows_of_outcome h
    rw [← eq_action_of_reached hreached] at heffect
    cases heffect with
    | call target => exact absurd hreached (hcall target)
    | back => exact absurd hreached hret
    | _ => rfl

/-- A statement that leads to a line comes to a jump or a call, and that is all
it does to the machine. -/
theorem reached_of_jump {target : LineNumber} (h : (i.outcome s).1 = .ok effect)
    (htarget : effect.transfer = .jump target) :
    i.reached? s = some (.goto target) ∧ effect.machine = i.machine ∨
      i.reached? s = some (.gosub target) ∧ effect.machine =
        { i.machine with returns := (i.machine.place + 1) :: i.machine.returns } := by
  cases hreached : i.reached? s with
  | none =>
    rcases outcome_of_not_reached hreached with ⟨f, hf⟩ | hskip
    · rw [h] at hf
      cases hf
    · rw [h] at hskip
      cases hskip
      cases htarget
  | some c =>
    have heffect := allows_of_outcome h
    rw [← eq_action_of_reached hreached] at heffect
    cases heffect with
    | jump =>
      cases htarget
      exact .inl ⟨rfl, rfl⟩
    | call =>
      cases htarget
      exact .inr ⟨rfl, rfl⟩
    | _ => cases htarget

end Interpreter

end LineBasic
