import LineBasic.Proofs.CapitalConditions
import LineBasic.Proofs.NestedBranches
import LineBasic.Proofs.UpperCase

/-!
Conditions that hold the word THEN inside a text literal. IF looks for THEN without
regard to literals, so a condition without the word is read from end to end, and one with
it in a literal is read only up to there. What is read then ends inside a literal and
cannot be decided, unless a variable in it brings a quote along.
-/

namespace LineBasic

namespace Text

/-- The text without the content of its literals. `quoted` tells whether it starts inside
one. -/
def outside : Bool → List Char → List Char
  | _, [] => []
  | quoted, c :: cs =>
    if quoted = true ∧ c ≠ '"' then outside quoted cs else c :: outside (turn quoted c) cs

section Outside

variable {c : Char} {cs w rest word : List Char}

theorem outside_cons_of_ne (h : c ≠ '"') (cs : List Char) :
    outside false (c :: cs) = c :: outside false cs := by
  rw [outside, if_neg (by simp), turn_of_ne h]

theorem outside_append (quoted : Bool) (cs ds : List Char) :
    outside quoted (cs ++ ds) = outside quoted cs ++ outside (quotedAfter quoted cs) ds := by
  induction cs generalizing quoted with
  | nil => rfl
  | cons c cs ih =>
    rw [List.cons_append, outside, outside, quotedAfter_cons]
    split
    · next h => rw [ih, turn_of_ne h.2]
    · rw [ih, List.cons_append]

theorem outside_of_notMem (h : '"' ∉ cs) : outside false cs = cs := by
  induction cs with
  | nil => rfl
  | cons c cs ih =>
    obtain ⟨hc, hcs⟩ := List.ne_and_not_mem_of_not_mem_cons h
    rw [outside_cons_of_ne (Ne.symm hc), ih hcs]

end Outside

section Standing

variable {x : Char} {cs w rest word : List Char}

/-- A blank separates words. -/
theorem hasWord_append_cons (hx : isBlank x = true) (cs ds : List Char) :
    HasWord word (cs ++ x :: ds) ↔ HasWord word cs ∨ HasWord word ds := by
  simp only [HasWord, List.splitOnP_append_cons cs ds hx, List.mem_append, or_and_right, exists_or]

theorem hasWord_of_forall (h : ∀ c ∈ w, isBlank c = false) : HasWord word w ↔ upper w = word := by
  simp [HasWord, List.splitOnP_eq_singleton h]

/-- A word stands in front of a text if nothing but a blank can follow it. -/
theorem hasWord_append (hupper : upper w = word) (hw : ∀ c ∈ w, isBlank c = false)
    (hrest : StopsAt (fun c => !isBlank c) rest) : HasWord word (w ++ rest) := by
  have hself : HasWord word w := (hasWord_of_forall hw).mpr hupper
  cases rest with
  | nil => rwa [List.append_nil]
  | cons x rest => exact (hasWord_append_cons (by simpa using hrest x rfl) w rest).mpr (.inl hself)

/-- Where a word stands first: at the start of the text or behind a blank, and in front of
it the word does not stand. -/
theorem exists_standing (h : HasWord word cs) :
    ∃ front w rest, cs = front ++ (w ++ rest) ∧ upper w = word ∧ (∀ c ∈ w, isBlank c = false) ∧
      StopsAt (fun c => !isBlank c) rest ∧
      (front = [] ∨ ∃ before x, front = before ++ [x] ∧ isBlank x = true ∧
        ¬ HasWord word before) := by
  induction hn : cs.length using Nat.strong_induction_on generalizing cs with
  | h n ih =>
    have hsplit := List.takeWhile_append_dropWhile (p := fun c => !isBlank c) (l := cs)
    have hfirst : ∀ c ∈ cs.takeWhile fun c => !isBlank c, isBlank c = false :=
      fun c hc => by simpa using mem_takeWhile hc
    have hstop := stopsAt_dropWhile (fun c => !isBlank c) cs
    generalize cs.takeWhile (fun c => !isBlank c) = w at hsplit hfirst
    generalize cs.dropWhile (fun c => !isBlank c) = rest at hsplit hstop
    subst hsplit
    by_cases hword : upper w = word
    · exact ⟨[], w, rest, rfl, hword, hfirst, hstop, .inl rfl⟩
    have hnot : ¬ HasWord word w := mt (hasWord_of_forall hfirst).mp hword
    cases rest with
    | nil =>
      rw [List.append_nil] at h
      exact absurd h hnot
    | cons x rest =>
      have hx : isBlank x = true := by simpa using hstop x rfl
      have hlater := ((hasWord_append_cons hx w rest).mp h).resolve_left hnot
      obtain ⟨front, w', rest', rfl, hupper, hw', hstop', hfront⟩ :=
        ih rest.length (by simp [← hn]; omega) hlater rfl
      refine ⟨w ++ x :: front, w', rest', by simp, hupper, hw', hstop', .inr ?_⟩
      rcases hfront with rfl | ⟨before, y, rfl, hy, hbefore⟩
      · exact ⟨w, x, rfl, hx, hnot⟩
      · refine ⟨w ++ x :: before, y, by simp, hy, fun hhas => ?_⟩
        exact ((hasWord_append_cons hx w before).mp hhas).elim hnot hbefore

end Standing

section Cut

variable {front w rest word : List Char}

/-- Outside its literals a text starts with its first character. -/
theorem stopsAt_outside {p : Char → Bool} (h : StopsAt p rest) : StopsAt p (outside false rest) := by
  cases rest with
  | nil => exact h
  | cons y rest => exact stopsAt_cons (h y rfl)

/-- A word that stands outside text literals stands in what is left without them. -/
theorem hasWord_outside (hupper : upper w = word) (hquote : '"' ∉ w)
    (hw : ∀ c ∈ w, isBlank c = false) (hrest : StopsAt (fun c => !isBlank c) rest)
    (hfront : front = [] ∨ ∃ before x, front = before ++ [x] ∧ isBlank x = true)
    (hquoted : quotedAfter false front = false) :
    HasWord word (outside false (front ++ (w ++ rest))) := by
  have hword := hasWord_append hupper hw (stopsAt_outside hrest)
  rw [outside_append, outside_append, hquoted, quotedAfter_of_notMem hquote,
    outside_of_notMem hquote]
  rcases hfront with rfl | ⟨before, x, rfl, hx⟩
  · exact hword
  · have hbefore : quotedAfter false before = false := by
      rw [quotedAfter_append, quotedAfter_cons, turn_of_isBlank hx, quotedAfter_nil] at hquoted
      exact hquoted
    have hblank : outside false [x] = [x] := by
      refine outside_of_notMem fun hmem => ?_
      rw [← List.mem_singleton.mp hmem] at hx
      cases hx
    rw [outside_append, hbefore, hblank, List.append_assoc]
    exact (hasWord_append_cons hx _ _).mpr (.inr hword)

end Cut

end Text

open Text

/-- No expansion of the table is a part of THEN, so it is the upper case of four characters
only. -/
theorem not_infix_then : ∀ e ∈ upperExpansions, ¬ e.2.map Char.ofNat <:+: "THEN".toList := by
  have hall : upperExpansions.all (fun e => !decide (e.2.map Char.ofNat <:+: "THEN".toList)) =
      true := by decide +kernel
  intro e he
  simpa using List.all_eq_true.mp hall e he

section Conditions

variable {condition clause : List Char}

/-- Where THEN stands in a condition, but not outside its literals, it stands between blanks
inside a literal, and before that it does not stand. -/
theorem exists_cut_of_hasWord (hbalanced : quotedAfter false condition = false)
    (hfree : ¬ HasWord "THEN".toList (outside false condition))
    (h : HasWord "THEN".toList condition) :
    ∃ before x front y rest, condition = before ++ x :: (front ++ y :: rest) ∧
      quotedAfter false before = true ∧ ¬ HasWord "THEN".toList before ∧
      front.map upperChar = "THEN".toList.map ([·]) ∧ isBlank x = true ∧ isBlank y = true := by
  obtain ⟨front, w, rest, rfl, hupper, hw, hrest, hfront⟩ := exists_standing h
  have hquote : '"' ∉ w := by
    intro hmem
    have hthen : '"' ∈ upper w := List.mem_flatMap.mpr ⟨'"', hmem, by decide⟩
    rw [hupper] at hthen
    revert hthen
    decide
  have hinside : quotedAfter false front = true := by
    refine Bool.eq_true_of_not_eq_false fun houtside => hfree ?_
    refine hasWord_outside hupper hquote hw hrest ?_ houtside
    exact hfront.imp_right fun ⟨before, x, heq, hx, _⟩ => ⟨before, x, heq, hx⟩
  rcases hfront with rfl | ⟨before, x, rfl, hx, hbefore⟩
  · cases hinside
  · rw [quotedAfter_append, quotedAfter_cons, turn_of_isBlank hx, quotedAfter_nil] at hinside
    cases rest with
    | nil =>
      -- The literal would not end.
      simp only [quotedAfter_append, quotedAfter_cons, quotedAfter_nil, turn_of_isBlank hx,
        quotedAfter_of_notMem hquote, hinside] at hbalanced
      cases hbalanced
    | cons y rest =>
      exact ⟨before, x, w, y, rest, by simp, hinside, hbefore,
        map_upperChar_of_upper hupper not_infix_then, hx, by simpa using hrest y rfl⟩

/-- A condition that ends inside a literal cannot be decided, if no variable in it brings
a quote along. -/
theorem Condition.holds_of_quoted {env : Environment} {cs : List Char}
    (hquoted : quotedAfter false cs = true) (hquotes : takesQuotes env cs = false) :
    holds env cs =
      throw (.undecidedCondition (String.ofList cs) (String.ofList (expand env cs))) := by
  have hparse : Expr.ofCondition? (expand env cs) = none := by
    refine Option.eq_none_iff_forall_ne_some.mpr fun e he => ?_
    obtain ⟨ts, hts, -⟩ := Option.bind_eq_some_iff.mp he
    have hend := quotedAfter_of_tokens? hts
    rw [quotedAfter_expand hquotes, hquoted] at hend
    cases hend
  simp only [holds, hparse]

namespace Interpreter

variable {s : Statement}

/-- A step on a branch whose condition cannot be decided reports that. -/
theorem reports_of_undecided {i : Interpreter} {clause : Option String} {body : Command}
    {f : Fault} (hexecutes : i.Executes s)
    (hcommand : Command.ofText (trimString s.code) = .branch condition clause body)
    (hholds : Condition.holds i.machine.environment condition = throw f)
    (requests : List Request) : i.Reports s.number f (i.step requests) := by
  have herror : (Condition.holds i.machine.environment condition).run.run i.generator =
      (.error f, i.generator) := by
    rw [hholds]
    rfl
  obtain ⟨notes, hexecute⟩ := Exec.run_branch (i.begun s) s.number condition clause body
  have hout : (i.outcome s).1 = .error f := by
    rw [outcome, execution_eq, hcommand, hexecute]
    simp only [begun, herror]
    rfl
  exact reports_of_raised hexecutes (by simp only [raised?, hout]) requests

/-- What IF reads of a condition that does not hold THEN outside its literals. If THEN does
not stand in a literal either, the condition is read from end to end, and the clause with
it. Otherwise the condition is read up to a place inside a literal, and whatever it says,
the step faults unless a variable in that part brings a quote along. -/
theorem condition_kept_unless_then_quoted (hbalanced : quotedAfter false condition = false)
    (hfree : ¬ HasWord "THEN".toList (outside false condition))
    (hcondition : ∃ c ∈ condition, isBlank c = false) (hclause : ∃ c ∈ clause, isBlank c = false)
    (hcode : trimString s.code = String.ofList (Command.branchText [condition] clause)) :
    (¬ HasWord "THEN".toList condition →
      Command.ofText (trimString s.code) = .branch (trim condition)
        (if (trim clause).all isDigit then none else some (String.ofList (trim clause)))
        (Command.ofTrimmed (Command.bareText (trim clause)))) ∧
      (HasWord "THEN".toList condition → ∃ before behind clause' body,
        condition = before ++ behind ∧ quotedAfter false before = true ∧
          Command.ofText (trimString s.code) = .branch (trim before) clause' body ∧
          ∀ (i : Interpreter) requests, i.Executes s →
            Condition.takesQuotes i.machine.environment (trim before) = false →
            i.Reports s.number (.undecidedCondition (String.ofList (trim before))
              (String.ofList (Condition.expand i.machine.environment (trim before))))
              (i.step requests)) := by
  rw [Command.ofText_trimString hcode]
  refine ⟨fun hno => Command.ofTrimmed_branch hcondition hno hclause, fun hyes => ?_⟩
  obtain ⟨before, x, front, y, rest, rfl, hinside, hbefore, hfront, hx, hy⟩ :=
    exists_cut_of_hasWord hbalanced hfree hyes
  have hmem : '"' ∈ before := by
    refine Classical.byContradiction fun hmem => ?_
    rw [quotedAfter_of_notMem hmem] at hinside
    cases hinside
  have hbehind : ∃ c ∈ rest ++ " THEN ".toList ++ clause, isBlank c = false :=
    ⟨'T', by simp, by decide⟩
  have hread := Command.ofTrimmed_if ⟨'"', hmem, by decide⟩ hbefore hfront hx hy hbehind
  have htext : Command.branchText [before ++ x :: (front ++ y :: rest)] clause = "IF".toList ++
      ' ' :: (before ++ x :: (front ++ y :: (rest ++ " THEN ".toList ++ clause))) := by
    simp [Command.branchText]
  rw [← htext] at hread
  refine ⟨before, _, _, _, rfl, hinside, hread, fun i requests hexecutes hquotes => ?_⟩
  have hquoted : quotedAfter false (trim before) = true := by rw [quotedAfter_trim, hinside]
  rw [← Command.ofText_trimString hcode] at hread
  exact reports_of_undecided hexecutes hread (Condition.holds_of_quoted hquoted hquotes) requests

/-- A run that has come to a comparison of texts that hold THEN. -/
def comparingPhrases : Interpreter where
  program :=
    (Program.load ["10 IF \"a THEN b\" = \"a THEN b\" THEN PRINT 1"]).toOption.getD .empty
  machine := { running := true }
  status := .running
  generator := ⟨#[], 0⟩

/-- THEN directly between quotes is part of a longer word, and between blanks it is not. -/
theorem condition_kept_unless_then_quoted_at_comparingPhrases :
    Command.ofText (trimString "IF \"THEN\" = A THEN 20") =
        .branch "\"THEN\" = A".toList none (.goto (.line 20)) ∧
      comparingPhrases.Reports 10 (.undecidedCondition "\"a" "\"a") (comparingPhrases.step []) := by
  have hword : trimString "IF \"THEN\" = A THEN 20" = String.ofList
      (Command.branchText ["\"THEN\" = A".toList] "20".toList) := by decide +kernel
  have hsingle := condition_kept_unless_then_quoted
    (s := ⟨10, "IF \"THEN\" = A THEN 20", by decide⟩) (by decide) (by decide +kernel)
    ⟨'=', by decide, by decide⟩ ⟨'2', by decide, by decide⟩ hword
  have hphrase : trimString "IF \"a THEN b\" = \"a THEN b\" THEN PRINT 1" = String.ofList
      (Command.branchText ["\"a THEN b\" = \"a THEN b\"".toList] "PRINT 1".toList) := by
    decide +kernel
  have hphrases := condition_kept_unless_then_quoted
    (s := ⟨10, "IF \"a THEN b\" = \"a THEN b\" THEN PRINT 1", by decide⟩) (by decide)
    (by decide +kernel) ⟨'=', by decide, by decide⟩ ⟨'1', by decide, by decide⟩ hphrase
  have hone := hsingle.1 (by decide +kernel)
  obtain ⟨before, _, _, _, -, -, hread, hreports⟩ := hphrases.2 (by decide +kernel)
  have hbefore : trim before = "\"a".toList := by
    have hcut : Command.ofText (trimString "IF \"a THEN b\" = \"a THEN b\" THEN PRINT 1") =
        .branch "\"a".toList (some "b\" = \"a THEN b\" THEN PRINT 1")
          (.invalid (.invalidName "b\"")) := by decide +kernel
    exact (Command.branch.inj (hread.symm.trans hcut)).1
  have hstep := hreports comparingPhrases [] ⟨rfl, rfl, rfl, by decide +kernel⟩
  rw [hbefore] at hstep
  have hexpand : Condition.expand comparingPhrases.machine.environment "\"a".toList =
      "\"a".toList := by decide +kernel
  rw [hexpand] at hstep
  refine ⟨hone.trans (by decide +kernel), hstep (by decide +kernel)⟩

/-- The condition holds and has THEN nowhere outside its literals, and the clause prints a
number; the step faults, because only the front of the condition is read. -/
theorem condition_not_kept_at_comparingPhrases :
    let condition := "\"a THEN b\" = \"a THEN b\"".toList
    let s : Statement := ⟨10, "IF \"a THEN b\" = \"a THEN b\" THEN PRINT 1", by decide⟩
    quotedAfter false condition = false ∧ ¬ HasWord "THEN".toList (outside false condition) ∧
      trimString s.code = String.ofList (Command.branchText [condition] "PRINT 1".toList) ∧
      ((Condition.holds comparingPhrases.machine.environment condition).run.run ⟨#[], 0⟩).1 =
        .ok true ∧
      Event.lines ((comparingPhrases.atClause "PRINT 1".toList ⟨#[], 0⟩).step []).events = ["1"] ∧
      comparingPhrases.Executes s ∧
      Event.lines (comparingPhrases.step []).events =
        ["Error at line 10: Cannot evaluate condition: \"a (rewritten as \"a)"] := by
  intro condition s
  refine ⟨by decide, by decide +kernel, by decide +kernel, by decide +kernel, by decide +kernel,
    ⟨rfl, rfl, rfl, by decide +kernel⟩, by decide +kernel⟩

end Interpreter

end Conditions

end LineBasic
