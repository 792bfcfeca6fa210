import LineBasic.Proofs.Effects
import LineBasic.Proofs.History
import LineBasic.Proofs.LineNumbers
import LineBasic.Proofs.Operations

/-!
What holds of an interpreter at every moment of an orderly history.
`Machine.Within` is the part that every effect of a command keeps: indices to
return to and loops stay inside the program, and a loop's variable is bound.
`Interpreter.Sound` ties the status to the rest.
-/

namespace LineBasic

namespace Environment

theorem get?_set {env env' : Environment} {name : String} {v : Value}
    (h : env.set name v = .ok env') (x : String) :
    env'.get? x = if Text.upperString name = Text.upperString x then some v else env.get? x := by
  unfold set normalName at h
  split at h
  · next key hkey =>
    split at hkey
    · cases hkey
      cases h
      simp [get?, Std.ExtTreeMap.getElem?_insert]
    · cases hkey
  · cases h

/-- Binding fails exactly for a text that is no name. -/
theorem set_eq_error_iff {env : Environment} {name : String} {v : Value} {f : Fault} :
    env.set name v = .error f ↔ isName name.toList = false ∧ f = .invalidName name := by
  unfold set normalName
  cases isName name.toList with
  | true => simp
  | false => simp [eq_comm]

/-- The variable that is bound is bound afterwards. -/
theorem contains_of_set {env env' : Environment} {name : String} {v : Value}
    (h : env.set name v = .ok env') : env'.contains name = true := by
  simp [contains, get?_set h]

/-- A binding is never lost by another one. -/
theorem contains_set_of_contains {env env' : Environment} {name x : String} {v : Value}
    (h : env.set name v = .ok env') (hx : env.contains x = true) : env'.contains x = true := by
  unfold contains at hx ⊢
  rw [get?_set h]
  split
  · rfl
  · exact hx

end Environment

namespace Machine

structure Within (size : Nat) (m : Machine) : Prop where
  returns : ∀ index ∈ m.returns, 1 ≤ index ∧ index ≤ size
  loops : ∀ (name : String) (loop : ForLoop), m.loops[name]? = some loop →
    loop.start < size ∧ (loop.step == 0) = false ∧ m.environment.contains name = true

/-- A machine at its start fits every program. -/
theorem within_start (size : Nat) (running breakRequested : Bool) :
    Within size { running := running, breakRequested := breakRequested } where
  returns := by simp
  loops := by simp

/-- Binding a variable keeps what is known of a loop. -/
theorem Within.loop_of_set {size : Nat} {m : Machine} {environment : Environment}
    {name x : String} {v : Value} {loop : ForLoop} (hm : m.Within size)
    (hset : m.environment.set x v = .ok environment) (hloop : m.loops[name]? = some loop) :
    loop.start < size ∧ (loop.step == 0) = false ∧ environment.contains name = true := by
  obtain ⟨hstart, hstep, hbound⟩ := hm.loops name loop hloop
  exact ⟨hstart, hstep, Environment.contains_set_of_contains hset hbound⟩

namespace Allows

variable {m : Machine} {c : Command} {effect : Effect}

/-- An effect leaves the place to the transfer and the flags to the host. -/
theorem frame (h : m.Allows c effect) :
    effect.machine.place = m.place ∧ effect.machine.running = m.running ∧
      effect.machine.breakRequested = m.breakRequested := by
  cases h <;> exact ⟨rfl, rfl, rfl⟩

/-- A statement that outputs a line goes on behind itself. -/
theorem transfer_of_output (h : m.Allows c effect) (hout : effect.output ≠ none) :
    effect.transfer = .advance := by
  cases h with
  | print => rfl
  | _ => exact absurd rfl hout

theorem output_eq_none (h : m.Allows c effect) (htransfer : effect.transfer ≠ .advance) :
    effect.output = none :=
  Classical.not_not.mp (mt h.transfer_of_output htransfer)

/-- Only INPUT waits. -/
theorem eq_input_of_await {name prompt : String} (h : m.Allows c effect)
    (hawait : effect.transfer = .await name prompt) : c = .input name prompt := by
  cases h <;> cases hawait
  rfl

/-- Only GOTO and GOSUB lead to a line. -/
theorem eq_of_jump {target : LineNumber} (h : m.Allows c effect)
    (hjump : effect.transfer = .jump target) : c = .goto target ∨ c = .gosub target := by
  cases h <;> cases hjump
  · exact .inl rfl
  · exact .inr rfl

/-- An INPUT statement does nothing itself. -/
theorem machine_of_await {name prompt : String} (h : m.Allows c effect)
    (hawait : effect.transfer = .await name prompt) : effect.machine = m := by
  cases h <;> cases hawait
  rfl

/-- An index that an effect leads to is in the program or just behind it. -/
theorem le_of_moveTo {size index : Nat} (h : m.Allows c effect) (hm : m.Within size)
    (hindex : effect.transfer = .moveTo index) : index ≤ size := by
  cases h with
  | back hreturns =>
    cases hindex
    exact (hm.returns _ (by simp [hreturns])).2
  | again hloop =>
    cases hindex
    exact (hm.loops _ _ hloop).1
  | _ => cases hindex

/-- Every effect of a statement inside a program keeps the machine within it. -/
theorem within {size : Nat} (h : m.Allows c effect) (hm : m.Within size) (hplace : m.place < size) :
    effect.machine.Within size := by
  cases h with
  | skip | print | await | jump | finish => exact hm
  | assign hset => exact ⟨hm.returns, fun _ _ hloop => hm.loop_of_set hset hloop⟩
  | call line =>
    refine ⟨?_, hm.loops⟩
    intro index hindex
    rcases List.mem_cons.mp hindex with rfl | hindex
    · exact ⟨Nat.le_add_left 1 _, hplace⟩
    · exact hm.returns index hindex
  | back hreturns =>
    refine ⟨?_, hm.loops⟩
    intro index hindex
    apply hm.returns
    rw [hreturns]
    exact List.mem_cons_of_mem _ hindex
  | @enter header start bound step environment hstep hset =>
    refine ⟨hm.returns, ?_⟩
    intro x loop hloop
    simp only [Std.ExtTreeMap.getElem?_insert] at hloop
    split at hloop
    · next heq =>
      cases hloop
      rw [← Std.LawfulEqCmp.eq_of_compare heq]
      exact ⟨hplace, hstep, Environment.contains_of_set hset⟩
    · exact hm.loop_of_set hset hloop
  | again _ _ hset _ => exact ⟨hm.returns, fun _ _ hname => hm.loop_of_set hset hname⟩
  | leave _ _ hset _ =>
    refine ⟨hm.returns, ?_⟩
    intro name loop hname
    simp only [Std.ExtTreeMap.getElem?_erase] at hname
    split at hname
    · cases hname
    · exact hm.loop_of_set hset hname

end Allows

/-- In a machine that fits a program, NEXT finds the variable of its loop. -/
theorem Within.nextRound_ne_undefined {size : Nat} {e : Execution} (h : e.machine.Within size)
    (name x : String) : ((Exec.nextRound name).run.run e).1 ≠ .error (.undefinedVariable x) := by
  intro hundefined
  rw [Exec.nextRound, run_run_bind, Exec.run_machine] at hundefined
  dsimp only at hundefined
  split at hundefined
  · cases hundefined
  · next loop hloop =>
    have hbound := (h.loops name loop hloop).2.2
    obtain ⟨v, hv⟩ := Option.isSome_iff_exists.mp hbound
    have hget : e.machine.environment.get name = .ok v := by simp [Environment.get, hv]
    rw [run_run_bind, Exec.run_ofExcept, hget] at hundefined
    cases v with
    | text s => cases hundefined
    | number y =>
      dsimp only at hundefined
      rw [run_run_bind, Exec.run_assign] at hundefined
      cases hset : e.machine.environment.set name (.number (y + loop.step)) with
      | error f =>
        obtain ⟨_, rfl⟩ := Environment.set_eq_error_iff.mp hset
        rw [hset] at hundefined
        cases hundefined
      | ok environment =>
        rw [hset] at hundefined
        dsimp only at hundefined
        split at hundefined <;> cases hundefined

end Machine

namespace Interpreter

structure Sound (i : Interpreter) : Prop where
  running_iff : i.machine.running = true ↔ i.status = .running ∨ i.status = .waiting
  pending_iff : i.pending.isSome = true ↔ i.status = .waiting
  pending_source : ∀ p, i.pending = some p → ∃ s,
    i.program.statementAt? i.machine.place = some s ∧ s.action = .input p.name p.prompt
  halted_of_fault : i.fault.isSome = true → i.status = .halted
  place_le : i.machine.place ≤ i.program.size
  place_lt_of_waiting : i.status = .waiting → i.machine.place < i.program.size
  place_lt_of_running : i.status = .running → i.machine.place < i.program.size ∨
    i.program.size = 0 ∧
      i.machine = { running := true, breakRequested := i.machine.breakRequested }
  machine_of_idle : i.status = .idle →
    i.machine = { breakRequested := i.machine.breakRequested }
  within : i.machine.Within i.program.size

section Sound

variable {i : Interpreter}

theorem sound_new (detail : Nat) (generator : Generator) :
    Sound { detail := detail, generator := generator } where
  running_iff := by simp
  pending_iff := by simp
  pending_source := by simp
  halted_of_fault := by simp
  place_le := Nat.zero_le _
  place_lt_of_waiting := by simp
  place_lt_of_running := by simp
  machine_of_idle := by simp
  within := Machine.within_start _ _ _

/-- A run may end wherever the machine fits the program. -/
theorem sound_ended (hplace : i.machine.place ≤ i.program.size)
    (hwithin : i.machine.Within i.program.size) : i.ended.Sound where
  running_iff := by simp [ended]
  pending_iff := by simp [ended]
  pending_source := by simp [ended]
  halted_of_fault := by simp [ended]
  place_le := hplace
  place_lt_of_waiting := by simp [ended]
  place_lt_of_running := by simp [ended]
  machine_of_idle := by simp [ended]
  within := ⟨hwithin.returns, hwithin.loops⟩

/-- Before the first start any program may be loaded. -/
theorem sound_load (h : i.Sound) (hidle : i.status = .idle) (program : Program) :
    (i.load program).Sound where
  running_iff := h.running_iff
  pending_iff := h.pending_iff
  pending_source := fun p hp => by
    have hwaiting := h.pending_iff.mp (Option.isSome_of_mem hp)
    simp [hidle] at hwaiting
  halted_of_fault := h.halted_of_fault
  place_le := by
    change i.machine.place ≤ program.size
    rw [h.machine_of_idle hidle]
    exact Nat.zero_le _
  place_lt_of_waiting := fun hwaiting => by simp [load, hidle] at hwaiting
  place_lt_of_running := fun hrunning => by simp [load, hidle] at hrunning
  machine_of_idle := h.machine_of_idle
  within := by
    change i.machine.Within program.size
    rw [h.machine_of_idle hidle]
    exact Machine.within_start _ _ _

theorem sound_start (i : Interpreter) : i.start.value.Sound where
  running_iff := by simp [start]
  pending_iff := by simp [start]
  pending_source := by simp [start]
  halted_of_fault := by simp [start]
  place_le := Nat.zero_le _
  place_lt_of_waiting := by simp [start]
  place_lt_of_running := by
    intro _
    rcases Nat.eq_zero_or_pos i.program.size with hzero | hpos
    · exact .inr ⟨hzero, rfl⟩
    · exact .inl hpos
  machine_of_idle := by simp [start]
  within := Machine.within_start _ _ _

/-- Whatever the host asks for, also while a line is output, is harmless. -/
theorem sound_asked (h : i.Sound) (requests : List Request) : (i.asked requests).Sound := by
  unfold asked
  simp only
  split
  · exact sound_ended h.place_le ⟨h.within.returns, h.within.loops⟩
  · next hkeeps =>
    -- A stop that halts nothing finds a machine that is not running.
    have hrunning : (i.machine.running && !requests.contains .stop) = i.machine.running := by
      cases hstop : requests.contains .stop with
      | false => simp
      | true =>
        have hidle : ¬ i.isActive := fun hactive => hkeeps ⟨hstop, hactive⟩
        have hoff : i.machine.running = false :=
          Bool.eq_false_iff.mpr fun hon => hidle (h.running_iff.mp hon)
        simp [hoff]
    rw [hrunning]
    exact {
      running_iff := h.running_iff
      pending_iff := h.pending_iff
      pending_source := h.pending_source
      halted_of_fault := h.halted_of_fault
      place_le := h.place_le
      place_lt_of_waiting := h.place_lt_of_waiting
      place_lt_of_running := fun hstatus =>
        (h.place_lt_of_running hstatus).imp_right fun ⟨hsize, hmachine⟩ =>
          ⟨hsize, by rw [hmachine]⟩
      machine_of_idle := fun hstatus => by
        have hmachine := h.machine_of_idle hstatus
        simp only at hmachine ⊢
        rw [hmachine]
      within := ⟨h.within.returns, h.within.loops⟩ }

/-- A started run that waits for nothing may go on at any index of the program,
and ends just behind it. -/
theorem sound_moveTo {index : Nat} (h : i.Sound) (hstarted : i.status ≠ .idle)
    (hpending : i.pending = none) (hindex : index ≤ i.program.size) :
    (i.moveTo index).value.Sound := by
  rw [value_moveTo]
  split
  · exact sound_ended hindex ⟨h.within.returns, h.within.loops⟩
  · next hlt =>
    have hplace : index < i.program.size := Nat.lt_of_not_le hlt
    exact {
      running_iff := h.running_iff
      pending_iff := h.pending_iff
      pending_source := by simp [placed, hpending]
      halted_of_fault := h.halted_of_fault
      place_le := hindex
      place_lt_of_waiting := fun _ => hplace
      place_lt_of_running := fun _ => .inl hplace
      machine_of_idle := fun hidle => absurd hidle hstarted
      within := ⟨h.within.returns, h.within.loops⟩ }

/-- A fault may be reported wherever the machine fits the program. -/
theorem sound_fail {requests : List Request} {line : Nat} {f : Fault}
    (hplace : i.machine.place ≤ i.program.size) (hwithin : i.machine.Within i.program.size) :
    (i.fail requests line f).value.Sound := by
  rw [value_fail]
  apply sound_ended
  · simpa using hplace
  · exact ⟨by simpa using hwithin.returns, by simpa using hwithin.loops⟩

/-- A statement may lead to an index of the program or just behind it, and
only INPUT may make the run wait. -/
theorem sound_follow {requests : List Request} {line : Nat} {t : Transfer} (h : i.Sound)
    (hstarted : i.status ≠ .idle) (hpending : i.pending = none)
    (hplace : i.machine.place < i.program.size)
    (hindex : ∀ index, t = .moveTo index → index ≤ i.program.size)
    (hawait : ∀ name prompt, t = .await name prompt → i.status = .running ∧ ∃ s,
      i.program.statementAt? i.machine.place = some s ∧ s.action = .input name prompt) :
    (i.follow requests line t).value.Sound := by
  cases t with
  | advance => exact sound_moveTo h hstarted hpending hplace
  | moveTo index => exact sound_moveTo h hstarted hpending (hindex index rfl)
  | finish => exact sound_ended h.place_le h.within
  | await name prompt =>
    obtain ⟨hrunning, hsource⟩ := hawait name prompt rfl
    exact {
      running_iff := by simp [follow, h.running_iff, hrunning]
      pending_iff := by simp [follow]
      pending_source := fun p hp => by
        cases hp
        exact hsource
      halted_of_fault := fun hfault => by
        have hhalted := h.halted_of_fault hfault
        simp [hrunning] at hhalted
      place_le := h.place_le
      place_lt_of_waiting := fun _ => hplace
      place_lt_of_running := by simp [follow]
      machine_of_idle := by simp [follow]
      within := h.within }
  | jump target =>
    cases target with
    | oversized digits => exact h
    | line number =>
      simp only [follow]
      split
      · exact sound_fail h.place_le h.within
      · next index hfound =>
        obtain ⟨s, hs, -⟩ := Program.indexOf?_eq_some_iff.mp hfound
        exact sound_moveTo h hstarted hpending (Nat.le_of_lt (List.getElem?_eq_some_iff.mp hs).1)

/-- A run that waits for nothing has nothing pending. -/
theorem pending_eq_none (h : i.Sound) (hstatus : i.status ≠ .waiting) : i.pending = none :=
  Option.not_isSome_iff_eq_none.mp fun hsome => hstatus (h.pending_iff.mp hsome)

/-- The effect of the statement at the place keeps everything. -/
theorem sound_enact {requests : List Request} {s : Statement} {effect : Effect} (h : i.Sound)
    (hrunning : i.status = .running) (hs : i.program.statementAt? i.machine.place = some s)
    (heffect : i.machine.Allows s.action effect) :
    (i.enact requests s.number effect).value.Sound := by
  have hplace : i.machine.place < i.program.size := (List.getElem?_eq_some_iff.mp hs).1
  have hpending : i.pending = none := pending_eq_none h (by simp [hrunning])
  obtain ⟨hsame, hon, hbreak⟩ := heffect.frame
  have hmid : Sound { i with machine := effect.machine } := {
    running_iff := by simp only [hon]; exact h.running_iff
    pending_iff := h.pending_iff
    pending_source := by simp [hpending]
    halted_of_fault := h.halted_of_fault
    place_le := by simp only [hsame]; exact h.place_le
    place_lt_of_waiting := fun _ => by simp only [hsame]; exact hplace
    place_lt_of_running := fun _ => by simp only [hsame]; exact .inl hplace
    machine_of_idle := fun hidle => by simp [hrunning] at hidle
    within := heffect.within h.within hplace }
  unfold enact
  cases hout : effect.output with
  | none =>
    refine sound_follow hmid ?_ hpending ?_ ?_ ?_
    · simp [hrunning]
    · simpa [hsame] using hplace
    · exact fun index hindex => heffect.le_of_moveTo h.within hindex
    · intro name prompt hawait
      have hs' : i.program.statementAt? effect.machine.place = some s := hsame ▸ hs
      exact ⟨hrunning, s, hs', heffect.eq_input_of_await hawait⟩
  | some text =>
    have hadvance : effect.transfer = .advance := heffect.transfer_of_output (by simp [hout])
    have hstatus := status_asked requests { i with machine := effect.machine }
    have hasked := sound_asked hmid requests
    simp only [Logged.value_bind, value_output, hadvance]
    refine sound_follow hasked ?_ (pending_eq_none hasked ?_) ?_ (by simp) (by simp)
    · rcases hstatus with hst | hst <;> rw [hst] <;> simp [hrunning]
    · rcases hstatus with hst | hst <;> rw [hst] <;> simp [hrunning]
    · simpa [hsame] using hplace

theorem sound_perform {requests : List Request} {s : Statement} (h : i.Sound)
    (hrunning : i.status = .running) (hs : i.program.statementAt? i.machine.place = some s) :
    (i.perform requests s).value.Sound := by
  have hdrawn : (i.drawn s).Sound := {
    running_iff := h.running_iff
    pending_iff := h.pending_iff
    pending_source := h.pending_source
    halted_of_fault := h.halted_of_fault
    place_le := h.place_le
    place_lt_of_waiting := h.place_lt_of_waiting
    place_lt_of_running := h.place_lt_of_running
    machine_of_idle := h.machine_of_idle
    within := h.within }
  cases hout : (i.outcome s).1 with
  | error f =>
    rw [value_perform_of_error hout]
    exact sound_fail hdrawn.place_le hdrawn.within
  | ok effect =>
    rw [value_perform_of_ok hout]
    exact sound_enact hdrawn hrunning hs (allows_of_outcome (i := i) hout)

/-- A step keeps everything, whatever the host asks for in the middle of it. -/
theorem sound_step (h : i.Sound) (requests : List Request) : (i.step requests).value.Sound := by
  unfold step
  split
  · exact h
  · next hstatus =>
    have hrunning : i.status = .running := Classical.not_not.mp hstatus
    split
    · exact sound_ended h.place_le h.within
    · split
      · rw [Logged.value_bind, value_output, value_halt]
        have hasked := sound_asked h requests
        exact sound_ended hasked.place_le hasked.within
      · split
        · exact sound_ended h.place_le h.within
        · next s hs =>
          exact sound_perform h hrunning hs

theorem sound_resume (h : i.Sound) {answer : String}
    (hfine : ∀ f, (i.resume answer).value.1 ≠ some (.fault f)) :
    (i.resume answer).value.2.Sound := by
  unfold resume at hfine ⊢
  split
  · next pending hwaiting hpending =>
    simp only [hwaiting, hpending] at hfine ⊢
    split
    · next f hset =>
      simp [hset] at hfine
    · next environment hset =>
      simp only [Logged.value_bind]
      refine sound_moveTo ?_ (by simp) rfl (h.place_lt_of_waiting hwaiting)
      exact {
        running_iff := by simp [h.running_iff, hwaiting]
        pending_iff := by simp
        pending_source := by simp
        halted_of_fault := fun hfault => by
          have hhalted := h.halted_of_fault hfault
          simp [hwaiting] at hhalted
        place_le := h.place_le
        place_lt_of_waiting := by simp
        place_lt_of_running := fun _ => .inl (h.place_lt_of_waiting hwaiting)
        machine_of_idle := by simp
        within := ⟨h.within.returns, fun _ _ hloop => h.within.loop_of_set hset hloop⟩ }
  · exact h

/-- Every operation of an orderly history keeps everything. -/
theorem sound_operate (h : i.Sound) {o : Operation} (ho : i.Accepts o) :
    (i.operate o).value.2.Sound := by
  cases o with
  | load program => exact sound_load h ho program
  | start program => exact sound_start _
  | step requests => exact sound_step h requests
  | resume answer => exact sound_resume h ho
  | requestBreak =>
    change i.requestBreak.Sound
    rw [← asked_break]
    exact sound_asked h [.break]
  | stop =>
    change i.stop.value.Sound
    rw [← asked_stop]
    exact sound_asked h [.stop]

end Sound

/-- At every moment of an orderly history everything holds. -/
theorem Reachable.sound {i : Interpreter} (h : Reachable i) : i.Sound := by
  induction h with
  | new detail generator => exact sound_new detail generator
  | next o _ ho ih => exact sound_operate ih ho

/-- What an orderly history keeps: everything that `Sound` lists, and with it
that NEXT never misses the variable of its loop. -/
theorem sound_of_history {i : Interpreter} (h : Reachable i) :
    i.Sound ∧ ∀ name x (e : Execution), e.machine = i.machine →
      ((Exec.nextRound name).run.run e).1 ≠ .error (.undefinedVariable x) :=
  ⟨h.sound, fun name x _ he => Machine.Within.nextRound_ne_undefined (he ▸ h.sound.within) name x⟩

def countToThree : Program :=
  ⟨[⟨10, "FOR I = 1 TO 3", by decide⟩, ⟨20, "NEXT I", by decide⟩], by simp⟩

/-- The loop has been entered and its body is next. -/
theorem sound_of_history_in_loop :
    let i := (((⟨0, .empty, {}, .idle, none, none, ⟨#[], 0⟩⟩ : Interpreter).operate
      (.start (some countToThree))).value.2.operate (.step [.break])).value.2
    i.Sound ∧ i.machine.loops["I"]? = some ⟨3, 1, 0⟩ ∧ i.machine.place = 1 := by
  intro i
  have hi : i.Reachable := .next _ (.next _ (.new 0 _) trivial) trivial
  exact ⟨(sound_of_history hi).1, by decide +kernel, by decide +kernel⟩

end Interpreter

end LineBasic
