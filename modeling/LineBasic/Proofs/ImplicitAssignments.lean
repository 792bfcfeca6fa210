import LineBasic.Proofs.NestedBranches

/-!
Assignments without LET. Both ways of writing an assignment cut it at the same equals
sign, the first one that leaves something in front of it, so they do the same. A text that
cannot be cut at all is an unknown command by itself and a malformed statement behind LET.
-/

namespace LineBasic

open Text

namespace Shape

structure Cuts (cs left right : List Char) : Prop where
  eq : ∃ blanks, cs = left ++ (blanks ++ '=' :: right) ∧ ∀ c ∈ blanks, isBlank c = true
  left_ne_nil : left ≠ []
  left_tight : ∀ c ∈ left, isBlank c = false
  right_ne_nil : right ≠ []

structure FirstCuts (cs left right : List Char) : Prop extends Cuts cs left right where
  length_le : ∀ left' right', Cuts cs left' right' → left.length ≤ left'.length

section Cuts

variable {c : Char} {cs left right left' right' : List Char}

theorem isLeftSide_iff : isLeftSide c = true ↔ isBlank c = false ∧ c ≠ '=' := by
  simp [isLeftSide]

/-- Behind the left side there is no character of a left side. -/
theorem stopsAt_isLeftSide {blanks : List Char} (h : ∀ c ∈ blanks, isBlank c = true) :
    StopsAt isLeftSide (blanks ++ '=' :: right) := by
  cases blanks with
  | nil => exact stopsAt_cons (by decide)
  | cons b blanks => exact stopsAt_cons (by simp [isLeftSide, h b List.mem_cons_self])

theorem trimLeft_blanks_equals {blanks : List Char} (h : ∀ c ∈ blanks, isBlank c = true) :
    trimLeft (blanks ++ '=' :: right) = '=' :: right :=
  dropWhile_run h (stopsAt_cons (by decide))

/-- The sides are read off a text that is cut in front of the first equals sign. -/
theorem assignment?_of_forall {blanks : List Char} (hleft : ∀ d ∈ left, isLeftSide d = true)
    (hblanks : ∀ d ∈ blanks, isBlank d = true) (hright : right ≠ []) :
    assignment? (c :: (left ++ (blanks ++ '=' :: right))) = some (c :: left, right) := by
  obtain ⟨d, right, rfl⟩ := List.exists_cons_of_ne_nil hright
  have hstop : StopsAt isLeftSide (blanks ++ '=' :: d :: right) := stopsAt_isLeftSide hblanks
  simp only [assignment?, atEquals?, takeWhile_run hleft hstop, dropWhile_run hleft hstop,
    trimLeft_blanks_equals hblanks]

/-- What is read off a text cuts it. -/
theorem exists_of_assignment? (h : assignment? (c :: cs) = some (left, right)) :
    ∃ rest blanks, left = c :: rest ∧ cs = rest ++ (blanks ++ '=' :: right) ∧
      (∀ d ∈ rest, isLeftSide d = true) ∧ (∀ d ∈ blanks, isBlank d = true) ∧ right ≠ [] := by
  simp only [assignment?, atEquals?] at h
  split at h
  · next left' d right' hat =>
    cases h
    split at hat
    · next right'' htrim =>
      cases hat
      refine ⟨cs.takeWhile isLeftSide, (cs.dropWhile isLeftSide).takeWhile isBlank, rfl, ?_,
        fun d => mem_takeWhile, fun d => mem_takeWhile, by simp⟩
      rw [← htrim, trimLeft, List.takeWhile_append_dropWhile, List.takeWhile_append_dropWhile]
    · cases hat
  · cases h

/-- A text that is cut anywhere is also cut in front of the first equals sign that can be
one. -/
theorem Cuts.exists_assignment? (h : Cuts (c :: cs) left right) :
    ∃ sides, assignment? (c :: cs) = some sides := by
  obtain ⟨blanks, heq, hblanks⟩ := h.eq
  obtain ⟨d, rest, rfl⟩ := List.exists_cons_of_ne_nil h.left_ne_nil
  rw [List.cons_append] at heq
  obtain ⟨rfl, rfl⟩ := List.cons.inj heq
  -- The left side may hold equals signs itself; the first of them is the one.
  cases hother : rest.dropWhile isLeftSide with
  | nil =>
    have hrest : ∀ e ∈ rest, isLeftSide e = true := List.dropWhile_eq_nil_iff.mp hother
    exact ⟨_, assignment?_of_forall hrest hblanks h.right_ne_nil⟩
  | cons e behind =>
    have hsplit := rest.takeWhile_append_dropWhile (p := isLeftSide)
    rw [hother] at hsplit
    have he : e = '=' := by
      have hmem : e ∈ c :: rest := by
        rw [← hsplit]
        simp
      have hstop := stopsAt_dropWhile isLeftSide rest e (by rw [hother]; rfl)
      simpa [isLeftSide, h.left_tight e hmem] using hstop
    rw [← hsplit, he, List.append_assoc, List.cons_append]
    have hnone : ∀ d ∈ ([] : List Char), isBlank d = true := List.forall_mem_nil _
    exact ⟨_, assignment?_of_forall (fun _ => mem_takeWhile) hnone (by simp)⟩

/-- Two cuts of a text with left sides of the same length are the same. -/
theorem Cuts.unique (h : Cuts cs left right) (h' : Cuts cs left' right')
    (hlength : left.length = left'.length) : left = left' ∧ right = right' := by
  obtain ⟨blanks, rfl, hblanks⟩ := h.eq
  obtain ⟨blanks', heq, hblanks'⟩ := h'.eq
  obtain ⟨rfl, hrest⟩ := List.append_inj heq hlength
  have htrim := congrArg trimLeft hrest
  rw [trimLeft_blanks_equals hblanks, trimLeft_blanks_equals hblanks'] at htrim
  exact ⟨rfl, (List.cons.inj htrim).2⟩

/-- What is read off a text is where it is cut first. -/
theorem firstCuts_of_assignment? (hc : isBlank c = false)
    (h : assignment? (c :: cs) = some (left, right)) : FirstCuts (c :: cs) left right := by
  obtain ⟨rest, blanks, rfl, rfl, hrest, hblanks, hright⟩ := exists_of_assignment? h
  have htight : ∀ d ∈ c :: rest, isBlank d = false :=
    List.forall_mem_cons.mpr ⟨hc, fun d hd => (isLeftSide_iff.mp (hrest d hd)).1⟩
  refine ⟨⟨⟨blanks, rfl, hblanks⟩, by simp, htight, hright⟩, fun left' right' h' => ?_⟩
  obtain ⟨blanks', heq, hblanks'⟩ := h'.eq
  obtain ⟨d, rest', rfl⟩ := List.exists_cons_of_ne_nil h'.left_ne_nil
  rw [List.cons_append] at heq
  obtain ⟨rfl, htails⟩ := List.cons.inj heq
  -- A shorter left side would stop in front of a character that belongs to it.
  refine Nat.succ_le_succ (Nat.le_of_not_lt fun hlt => ?_)
  have hbefore : rest' <+: rest :=
    List.prefix_of_prefix_length_le ⟨_, htails.symm⟩ ⟨_, rfl⟩ (Nat.le_of_lt hlt)
  have hrest' : ∀ d ∈ rest', isLeftSide d = true := fun d hd => hrest d (hbefore.subset hd)
  have htake := congrArg (List.takeWhile isLeftSide) htails
  rw [takeWhile_run hrest (stopsAt_isLeftSide hblanks),
    takeWhile_run hrest' (stopsAt_isLeftSide hblanks')] at htake
  exact absurd hlt (by simp [htake])

theorem assignment?_eq_some_iff (hedges : HasEdges cs) :
    assignment? cs = some (left, right) ↔ FirstCuts cs left right := by
  obtain ⟨c, cs, rfl, hc⟩ := hedges.first
  refine ⟨firstCuts_of_assignment? hc, fun h => ?_⟩
  obtain ⟨⟨left', right'⟩, hsides⟩ := h.toCuts.exists_assignment?
  have hfirst := firstCuts_of_assignment? hc hsides
  have hlength := Nat.le_antisymm (h.length_le _ _ hfirst.toCuts) (hfirst.length_le _ _ h.toCuts)
  obtain ⟨rfl, rfl⟩ := h.unique hfirst.toCuts hlength
  exact hsides

theorem exists_firstCuts (hedges : HasEdges cs) (h : Cuts cs left right) :
    ∃ left right, FirstCuts cs left right := by
  obtain ⟨c, cs, rfl, hc⟩ := hedges.first
  obtain ⟨⟨left, right⟩, hsides⟩ := h.exists_assignment?
  exact ⟨left, right, firstCuts_of_assignment? hc hsides⟩

/-- Nothing is read off a text that is cut nowhere. -/
theorem assignment?_eq_none_iff (hedges : HasEdges cs) :
    assignment? cs = none ↔ ∀ left right, ¬ Cuts cs left right := by
  rw [Option.eq_none_iff_forall_ne_some]
  constructor
  · intro h left right hcuts
    obtain ⟨left, right, hfirst⟩ := exists_firstCuts hedges hcuts
    exact h (left, right) ((assignment?_eq_some_iff hedges).mpr hfirst)
  · rintro h ⟨left, right⟩ hsides
    exact h left right ((assignment?_eq_some_iff hedges).mp hsides).toCuts

end Cuts

/-- Whether a text starts with a command word, in any case, that does not run on into
further word characters. -/
def StartsCommand (cs : List Char) : Prop :=
  ∃ (k : Keyword) (word rest : List Char), cs = word ++ rest ∧ (∀ c ∈ word, isLetter c = true) ∧
    upper word = k.word.toList ∧ StopsAt isWord rest

theorem keyword?_eq_none_iff {cs : List Char} : keyword? cs = none ↔ ¬ StartsCommand cs := by
  constructor
  · rintro hnone ⟨k, word, rest, rfl, hletters, hword, hrest⟩
    rw [keyword?_append hletters hword hrest] at hnone
    cases hnone
  · intro h
    refine Option.eq_none_iff_forall_ne_some.mpr fun ⟨k, rest⟩ hk => h ?_
    simp only [keyword?] at hk
    split at hk
    · cases hk
    · next hstop =>
      obtain ⟨k', hfind, heq⟩ := Option.map_eq_some_iff.mp hk
      cases heq
      have hword : k.word = String.ofList (upper (cs.takeWhile isLetter)) := by
        simpa using List.find?_some hfind
      refine ⟨k, cs.takeWhile isLetter, _, List.takeWhile_append_dropWhile.symm,
        fun _ => mem_takeWhile, by rw [hword, String.toList_ofList], fun c hc => ?_⟩
      simpa [hc] using hstop

end Shape

namespace Command

variable {cs left right : List Char}

/-- A text that starts with no command is read as an assignment, if it can be cut, and is
an unknown command otherwise. -/
theorem ofTrimmed_of_not_startsCommand (h : ¬ Shape.StartsCommand cs) :
    ofTrimmed cs = match Shape.assignment? cs with
      | some (name, value) => assignment name value
      | none => .invalid (.unknownCommand (String.ofList (firstWord cs))) := by
  have hk := Shape.keyword?_eq_none_iff.mpr h
  rw [ofTrimmed_eq]
  rcases Shape.assignment? cs with _ | ⟨name, value⟩ <;> simp only [hk]

end Command

def Statement.explicit (s : Statement) : Statement := { s with code := "LET " ++ s.code }

section Explicit

variable {s : Statement}

theorem Statement.toList_explicit (s : Statement) :
    s.explicit.code.toList = "LET".toList ++ ' ' :: s.code.toList := by
  simp [explicit]

theorem Statement.hasEdges_explicit (h : HasEdges s.code.toList) :
    HasEdges s.explicit.code.toList := by
  rw [toList_explicit]
  exact (Shape.hasEdges_word .LET).append h [' ']

theorem Command.ofText_of_hasEdges {t : String} (h : HasEdges t.toList) :
    ofText t = ofTrimmed t.toList := by
  rw [ofText, h.trim]

/-- Where a statement that starts with no command is cut first, there it is cut behind LET
as well. -/
theorem Command.ofText_of_firstCuts {left right : List Char} (hedges : HasEdges s.code.toList)
    (hword : ¬ Shape.StartsCommand s.code.toList)
    (hcuts : Shape.FirstCuts s.code.toList left right) :
    ofText s.code = assignment left right ∧ ofText s.explicit.code = assignment left right := by
  have hsides := (Shape.assignment?_eq_some_iff hedges).mpr hcuts
  constructor
  · rw [ofText_of_hasEdges hedges, ofTrimmed_of_not_startsCommand hword, hsides]
  · rw [ofText_of_hasEdges (Statement.hasEdges_explicit hedges), Statement.toList_explicit,
      ofTrimmed_let_append hedges, hsides]

/-- A statement that is cut nowhere is two different mistakes. -/
theorem Command.ofText_of_not_cuts (hedges : HasEdges s.code.toList)
    (hword : ¬ Shape.StartsCommand s.code.toList)
    (hcuts : ∀ left right, ¬ Shape.Cuts s.code.toList left right) :
    ofText s.code = .invalid (.unknownCommand (String.ofList (firstWord s.code.toList))) ∧
      ofText s.explicit.code = .invalid (.malformedStatement .LET s.explicit.code) := by
  have hsides := (Shape.assignment?_eq_none_iff hedges).mpr hcuts
  constructor
  · rw [ofText_of_hasEdges hedges, ofTrimmed_of_not_startsCommand hword, hsides]
  · rw [ofText_of_hasEdges (Statement.hasEdges_explicit hedges), Statement.toList_explicit,
      ofTrimmed_let_append hedges, hsides]
    simp only [malformed, ← Statement.toList_explicit, String.ofList_toList]

end Explicit

namespace Interpreter

variable {s s' : Statement}

/-- Two statements on a line that are read as the same command are executed alike but for
notes. -/
theorem execution_of_command_eq (i : Interpreter) (hnumber : s'.number = s.number)
    (hcommand : Command.ofText (trimString s'.code) = Command.ofText (trimString s.code)) :
    (i.execution s').1 = (i.execution s).1 ∧
      (i.execution s').2.unnoted = (i.execution s).2.unnoted := by
  rw [execution_eq, execution_eq, hcommand, hnumber]
  exact Exec.stepwise_ignoresNotes.execute s.number _ (i.begun s') (i.begun s) rfl

/-- LET may be left out. A statement that starts with no command is read as the same
assignment with LET and without, cut in front of the first equals sign that leaves a left
side, so whatever the machine both are executed alike: with the same result, be it a
transfer or a fault, the same machine, the same lines output, and the same numbers drawn.
Only a statement that is cut nowhere faults differently, and then nothing is done. -/
theorem explicit_acts_as_implicit (i : Interpreter) (htrim : trimString s.code = s.code)
    (hne : s.code ≠ "") (hword : ¬ Shape.StartsCommand s.code.toList) :
    (∀ left right, Shape.FirstCuts s.code.toList left right →
        Command.ofText s.code = Command.assignment left right ∧
          Command.ofText s.explicit.code = Command.assignment left right) ∧
      ((∃ left right, Shape.Cuts s.code.toList left right) →
        (i.execution s.explicit).1 = (i.execution s).1 ∧
          (i.execution s.explicit).2.unnoted = (i.execution s).2.unnoted) ∧
      ((∀ left right, ¬ Shape.Cuts s.code.toList left right) →
        (i.execution s).1 = .error (.unknownCommand (String.ofList (firstWord s.code.toList))) ∧
          (i.execution s.explicit).1 = .error (.malformedStatement .LET s.explicit.code) ∧
          (i.execution s).2.unnoted = { machine := i.machine, generator := i.generator } ∧
          (i.execution s.explicit).2.unnoted =
            { machine := i.machine, generator := i.generator }) := by
  have hedges := hasEdges_of_trimString htrim hne
  have htrim' : trimString s.explicit.code = s.explicit.code :=
    (Statement.hasEdges_explicit hedges).trimString
  refine ⟨fun left right hcuts => Command.ofText_of_firstCuts hedges hword hcuts, ?_, ?_⟩
  · rintro ⟨left, right, hcuts⟩
    obtain ⟨left, right, hfirst⟩ := Shape.exists_firstCuts hedges hcuts
    obtain ⟨hread, hread'⟩ := Command.ofText_of_firstCuts hedges hword hfirst
    refine execution_of_command_eq i rfl ?_
    rw [htrim, htrim', hread, hread']
  · intro hcuts
    obtain ⟨hread, hread'⟩ := Command.ofText_of_not_cuts hedges hword hcuts
    simp only [execution_eq, htrim, htrim', hread, hread']
    exact ⟨rfl, rfl, rfl, rfl⟩

/-- Equals signs within quotes, one that is a left side by itself, and one with nothing in
front of it. -/
theorem explicit_acts_as_implicit_at_equalsSigns :
    let i : Interpreter := { generator := ⟨#[], 0⟩ }
    let quoted : Statement := ⟨10, "A=\"x=1\"", by decide⟩
    let doubled : Statement := ⟨20, "== 5", by decide⟩
    let bare : Statement := ⟨30, "= 5", by decide⟩
    Command.ofText "LET A=\"x=1\"" = Command.assignment "A".toList "\"x=1\"".toList ∧
      (i.execution quoted.explicit).1 = (i.execution quoted).1 ∧
      (i.execution doubled.explicit).1 = .error (.invalidName "=") ∧
      (i.execution bare).1 = .error (.unknownCommand "=") ∧
      (i.execution bare.explicit).1 = .error (.malformedStatement .LET "LET = 5") := by
  intro i quoted doubled bare
  have hquotedTrim : trimString quoted.code = quoted.code := by decide +kernel
  have hdoubledTrim : trimString doubled.code = doubled.code := by decide +kernel
  have hbareTrim : trimString bare.code = bare.code := by decide +kernel
  have hquotedCuts : Shape.FirstCuts quoted.code.toList "A".toList "\"x=1\"".toList :=
    (Shape.assignment?_eq_some_iff (hasEdges_of_trimString hquotedTrim (by decide))).mp
      (by decide +kernel)
  have hdoubledCuts : Shape.FirstCuts doubled.code.toList "=".toList " 5".toList :=
    (Shape.assignment?_eq_some_iff (hasEdges_of_trimString hdoubledTrim (by decide))).mp
      (by decide +kernel)
  have hbareCuts : ∀ left right, ¬ Shape.Cuts bare.code.toList left right :=
    (Shape.assignment?_eq_none_iff (hasEdges_of_trimString hbareTrim (by decide))).mp
      (by decide +kernel)
  have hquotedBoth := explicit_acts_as_implicit i hquotedTrim (by decide)
    (Shape.keyword?_eq_none_iff.mp (by decide +kernel))
  have hdoubledBoth := explicit_acts_as_implicit i hdoubledTrim (by decide)
    (Shape.keyword?_eq_none_iff.mp (by decide +kernel))
  have hbareBoth := explicit_acts_as_implicit i hbareTrim (by decide)
    (Shape.keyword?_eq_none_iff.mp (by decide +kernel))
  have hinvalid : (i.execution doubled).1 = .error (.invalidName "=") := by decide +kernel
  have hsame := (hdoubledBoth.2.1 ⟨_, _, hdoubledCuts.toCuts⟩).1
  have hfaults := hbareBoth.2.2 hbareCuts
  have hfirst : firstWord bare.code.toList = ['='] := by decide +kernel
  rw [hfirst] at hfaults
  exact ⟨(hquotedBoth.1 _ _ hquotedCuts).2, (hquotedBoth.2.1 ⟨_, _, hquotedCuts.toCuts⟩).1,
    hsame.trans hinvalid, hfaults.1, hfaults.2.1⟩

end Interpreter

end LineBasic
