import LineBasic.Command.Basic
import LineBasic.Proofs.Capitals

/-!
Statements in capitals. What a statement is read as does not depend on the case of
the letters outside its text literals: read in capitals it is the same command with
its texts in capitals. Where a shape cuts a statement inside a text literal, what
stands behind the cut starts inside one.
-/

namespace LineBasic

open Text

theorem LineNumber.ofDigits_capitals (quoted : Bool) (cs : List Char) :
    ofDigits (capitals quoted cs) = ofDigits cs := by
  rw [ofDigits, length_capitals, digitsValue_capitals, ofDigits]

namespace Shape

variable {quoted : Bool} {cs word : List Char}

theorem keyword?_capitals (quoted : Bool) (cs : List Char) : keyword? (capitals quoted cs) =
    (keyword? cs).map fun (k, rest) => (k, capitals quoted rest) := by
  unfold keyword?
  simp only [dropWhile_capitals_of_quote caseBlind_isLetter (by decide),
    takeWhile_capitals caseBlind_isLetter, upper_capitals, any_head?_capitals caseBlind_isWord]
  split
  · rfl
  · rw [Option.map_map]
    rfl

theorem afterBlanks?_capitals (quoted : Bool) (cs : List Char) :
    afterBlanks? (capitals quoted cs) = (afterBlanks? cs).map (capitals quoted) := by
  cases cs with
  | nil => rfl
  | cons c cs =>
    rw [capitals_cons, afterBlanks?, afterBlanks?, caseBlind_isBlank, trimLeft_capitals]
    split
    · next hc => rw [turn_of_isBlank hc, Option.map_some]
    · rfl

theorem caseBlind_isLeftSide : CaseBlind isLeftSide := caseBlind_of_letters (by decide)

/-- The left and the right side of an equals sign in capitals. -/
def inCapitals (quoted : Bool) (sides : List Char × List Char) : List Char × List Char :=
  (capitals quoted sides.1, capitals (quotedAfter quoted sides.1) sides.2)

theorem atEquals?_capitals (quoted : Bool) (cs : List Char) :
    atEquals? (capitals quoted cs) = (atEquals? cs).map (inCapitals quoted) := by
  cases cs with
  | nil => rfl
  | cons c cs =>
    rw [capitals_cons, atEquals?, atEquals?, takeWhile_capitals caseBlind_isLeftSide,
      dropWhile_capitals caseBlind_isLeftSide, trimLeft_capitals]
    cases trimLeft (cs.dropWhile isLeftSide) with
    | nil => rfl
    | cons d right =>
      by_cases hd : d = '='
      · subst hd
        rw [capitals_cons_of_plain rfl (by decide)]
        rfl
      · have hd' : ∀ inside, capital inside d ≠ '=' := fun inside => mt (capital_eq_iff rfl).mp hd
        simp only [capitals_cons]
        split
        · next heq => exact absurd (List.cons.inj heq).1 (hd' _)
        · split
          · next heq => exact absurd (List.cons.inj heq).1 hd
          · rfl

theorem assignment?_capitals (quoted : Bool) (cs : List Char) :
    assignment? (capitals quoted cs) = (assignment? cs).map (inCapitals quoted) := by
  rw [assignment?, assignment?, atEquals?_capitals]
  cases atEquals? cs with
  | none => rfl
  | some sides =>
    obtain ⟨left, _ | ⟨c, right⟩⟩ := sides <;> rfl

/-- A word of an inner keyword, given in upper case, is found in any case. -/
theorem takeWord?_capitals (hword : '"' ∉ word) (quoted : Bool) (cs : List Char) :
    takeWord? word (capitals quoted cs) = (takeWord? word cs).map (capitals quoted) := by
  induction word generalizing cs with
  | nil => rfl
  | cons k ks ih =>
    obtain ⟨hk, hks⟩ := not_or.mp (mt List.mem_cons.mpr hword)
    cases cs with
    | nil => rfl
    | cons c cs =>
      rw [capitals_cons, takeWord?, takeWord?, caseBlind_upperChar]
      split
      · next hc =>
        have hquote : c ≠ '"' := by
          rintro rfl
          exact hk (List.singleton_inj.mp hc)
        rw [turn_of_ne hquote, ih hks]
      · rfl

theorem behindWord?_capitals (hword : '"' ∉ word) (quoted : Bool) (cs : List Char) :
    behindWord? word (capitals quoted cs) = (behindWord? word cs).map (capitals quoted) := by
  rw [behindWord?, behindWord?, takeWord?_capitals hword]
  cases takeWord? word cs with
  | none => rfl
  | some rest =>
    cases rest with
    | nil => rfl
    | cons c rest =>
      simp only [Option.map_some, capitals_cons, caseBlind_isBlank _ _, trimLeft_capitals, ne_eq,
        capitals_eq_nil_iff]
      split
      · next hc => rw [turn_of_isBlank hc.1, Option.map_some]
      · rfl

theorem aroundWord?_capitals (hword : '"' ∉ word) (quoted : Bool) (cs : List Char) :
    aroundWord? word (capitals quoted cs) = (aroundWord? word cs).map (inCapitals quoted) := by
  induction cs generalizing quoted with
  | nil => rfl
  | cons c cs ih =>
    have hbehind : (if isBlank (capital quoted c) then
          behindWord? word (trimLeft (capitals (turn quoted c) cs)) else none) =
        (if isBlank c then behindWord? word (trimLeft cs) else none).map (capitals quoted) := by
      rw [caseBlind_isBlank, trimLeft_capitals, behindWord?_capitals hword]
      split
      · next hc => rw [turn_of_isBlank hc]
      · rfl
    rw [capitals_cons, aroundWord?, aroundWord?, hbehind, ih]
    cases if isBlank c then behindWord? word (trimLeft cs) else none with
    | some behind => rfl
    | none =>
      rw [Option.map_none, Option.map_map, Option.map_map]
      rfl

theorem atWord?_capitals (hword : '"' ∉ word) (spare : Nat) (quoted : Bool) (cs : List Char) :
    atWord? word spare (capitals quoted cs) = (atWord? word spare cs).map (inCapitals quoted) := by
  rw [atWord?, atWord?, trimLeft_capitals]
  cases trimLeft cs with
  | nil => rfl
  | cons c rest =>
    simp only [capitals_cons, aroundWord?_capitals hword, length_capitals]
    cases aroundWord? word rest with
    | some sides => rfl
    | none =>
      simp only [Option.map_none]
      split
      · rw [← capitals_cons, behindWord?_capitals hword, Option.map_map, Option.map_map]
        rfl
      · rfl

theorem conditional?_capitals (quoted : Bool) (cs : List Char) :
    conditional? (capitals quoted cs) = (conditional? cs).map (inCapitals quoted) := by
  rw [conditional?, conditional?, any_head?_capitals caseBlind_isBlank,
    atWord?_capitals (by decide)]
  split
  · rw [Option.map_map, Option.map_map]
    congr 1
    funext sides
    simp only [Function.comp, inCapitals, trim_capitals, quotedAfter_trim]
  · rfl

def LoopText.inCapitals (quoted : Bool) (parts : LoopText) : LoopText :=
  let atStart := quotedAfter quoted parts.name
  let atBound := quotedAfter atStart parts.start
  let atStep := quotedAfter atBound parts.bound
  ⟨capitals quoted parts.name, capitals atStart parts.start, capitals atBound parts.bound,
    parts.step.map (capitals atStep)⟩

theorem loop?_capitals (quoted : Bool) (cs : List Char) :
    loop? (capitals quoted cs) = (loop? cs).map (LoopText.inCapitals quoted) := by
  unfold loop?
  rw [afterBlanks?_capitals]
  cases hblanks : afterBlanks? cs with
  | none => rfl
  | some rest =>
    simp only [Option.map_some, Option.bind_some, atEquals?_capitals]
    cases atEquals? rest with
    | none => rfl
    | some sides =>
      obtain ⟨name, right⟩ := sides
      simp only [Option.map_some, inCapitals, bind, Option.bind_some,
        atWord?_capitals (by decide : '"' ∉ "TO".toList)]
      cases atWord? "TO".toList 2 right with
      | none => rfl
      | some sides =>
        obtain ⟨start, _ | ⟨c, behind⟩⟩ := sides
        · rfl
        · simp only [Option.map_some, inCapitals, Option.bind_some, capitals_cons,
            aroundWord?_capitals (by decide : '"' ∉ "STEP".toList)]
          cases aroundWord? "STEP".toList behind with
          | none =>
            simp only [Option.map_none, ← capitals_cons, trim_capitals]
            simp [LoopText.inCapitals, quotedAfter_trim]
          | some sides =>
            obtain ⟨before, step⟩ := sides
            simp only [Option.map_some, inCapitals, ← capitals_cons, trim_capitals]
            simp [LoopText.inCapitals, quotedAfter_trim]

theorem next?_capitals (quoted : Bool) (cs : List Char) :
    next? (capitals quoted cs) = (next? cs).map (capitals quoted) := by
  unfold next?
  rw [afterBlanks?_capitals]
  cases afterBlanks? cs with
  | none => rfl
  | some rest =>
    simp only [Option.map_some, bind, Option.bind_some, takeWhile_capitals caseBlind_isBlank.not,
      dropWhile_capitals caseBlind_isBlank.not, trimLeft_capitals, ne_eq, capitals_eq_nil_iff]
    split <;> rfl

theorem target?_capitals (quoted : Bool) (cs : List Char) :
    target? (capitals quoted cs) = target? cs := by
  simp only [target?, trim_capitals, ne_eq, capitals_eq_nil_iff, all_capitals caseBlind_isDigit,
    LineNumber.ofDigits_capitals]

theorem caseBlind_isInputName : CaseBlind isInputName := caseBlind_of_letters (by decide)

theorem inputName?_capitals (quoted : Bool) (cs : List Char) :
    inputName? (capitals quoted cs) = (inputName? cs).map (capitals quoted) := by
  simp only [inputName?, trimLeft_capitals, takeWhile_capitals caseBlind_isInputName,
    dropWhile_capitals_of_quote caseBlind_isInputName (by decide), ne_eq, capitals_eq_nil_iff]
  split <;> rfl

theorem caseBlind_isInsideQuotes : CaseBlind isInsideQuotes := caseBlind_of_letters (by decide)

theorem eq_quote_of_dropWhile {c : Char} {rest : List Char}
    (h : cs.dropWhile isInsideQuotes = c :: rest) : c = '"' := by
  have hstop : isInsideQuotes c = false := stopsAt_dropWhile isInsideQuotes cs c (by rw [h]; rfl)
  simpa [isInsideQuotes] using hstop

theorem notMem_takeWhile (cs : List Char) : '"' ∉ cs.takeWhile isInsideQuotes :=
  fun hmem => Bool.false_ne_true (mem_takeWhile hmem)

/-- A prompt is a text literal, so that its content is on the other side of the
quotes. -/
theorem input?_capitals (quoted : Bool) (cs : List Char) : input? (capitals quoted cs) =
    (input? cs).map fun (prompt, name) =>
      (prompt.map (capital (!quoted)), capitals quoted name) := by
  unfold input?
  rw [trimLeft_capitals]
  cases trimLeft cs with
  | nil => rfl
  | cons c rest =>
    by_cases hc : c = '"'
    · subst hc
      rw [capitals_quote]
      simp only [takeWhile_capitals caseBlind_isInsideQuotes,
        capitals_of_notMem (notMem_takeWhile _),
        dropWhile_capitals_of_quote caseBlind_isInsideQuotes (by decide)]
      cases hrest : rest.dropWhile isInsideQuotes with
      | nil => rfl
      | cons d behind =>
        obtain rfl := eq_quote_of_dropWhile hrest
        simp only [capitals_quote, Bool.not_not, trimLeft_capitals]
        cases trimLeft behind with
        | nil => rfl
        | cons d behind =>
          by_cases hd : d = ';'
          · subst hd
            simp only [capitals_cons_of_plain (c := ';') rfl (by decide), inputName?_capitals]
            rw [Option.map_map, Option.map_map]
            rfl
          · have hd' : capital quoted d ≠ ';' := mt (capital_eq_iff rfl).mp hd
            simp only [capitals_cons]
            split
            · next heq => exact absurd (List.cons.inj heq).1 hd'
            · split
              · next heq => exact absurd (List.cons.inj heq).1 hd
              · rfl
    · have hc' : capital quoted c ≠ '"' := mt (capital_eq_iff rfl).mp hc
      rw [capitals_cons]
      split
      · next heq => exact absurd (List.cons.inj heq).1 hc'
      · split
        · next heq => exact absurd (List.cons.inj heq).1 hc
        · rw [← capitals_cons, inputName?_capitals, Option.map_map, Option.map_map]
          rfl

end Shape

namespace PrintItem

def inCapitals (quoted : Bool) (item : PrintItem) : PrintItem :=
  { item with text := capitals quoted item.text }

theorem consFirst_ne_nil (c : Char) (items : List PrintItem) : consFirst c items ≠ [] := by
  cases items <;> exact List.cons_ne_nil _ _

theorem cut_ne_nil (inside : Bool) (cs : List Char) : cut inside cs ≠ [] := by
  cases cs with
  | nil => exact List.cons_ne_nil _ _
  | cons c cs =>
    rw [cut]
    split
    · exact List.cons_ne_nil _ _
    · exact consFirst_ne_nil _ _

theorem caseBlind_ofChar? : CaseBlind Separator.ofChar? := caseBlind_of_letters (by decide)

theorem cut_cons (inside : Bool) (c : Char) (cs : List Char) : cut inside (c :: cs) =
    match if turn inside c then none else Separator.ofChar? c with
    | some separator => ⟨[], some separator⟩ :: cut (turn inside c) cs
    | none => consFirst c (cut (turn inside c) cs) := rfl

/-- Separators count outside text literals only, so every argument but the first
starts on the side that the whole text is on there. -/
theorem cut_capitals {inside : Bool} {cs : List Char} {item : PrintItem} {items : List PrintItem}
    (h : cut inside cs = item :: items) (quoted : Bool) :
    cut inside (capitals quoted cs) =
      item.inCapitals quoted :: items.map (inCapitals (quoted ^^ inside)) := by
  induction cs generalizing inside item items quoted with
  | nil =>
    cases h
    rfl
  | cons c cs ih =>
    have hsides : (turn quoted c ^^ turn inside c) = (quoted ^^ inside) := by
      unfold turn
      split <;> simp
    obtain ⟨first, others, hcut⟩ := List.exists_cons_of_ne_nil (cut_ne_nil (turn inside c) cs)
    have hrest := ih hcut (turn quoted c)
    rw [cut_cons, hcut] at h
    rw [capitals_cons, cut_cons, turn_capital, caseBlind_ofChar?, hrest]
    cases hside : turn inside c with
    | true =>
      rw [hside] at h hsides
      cases h
      rw [hsides]
      rfl
    | false =>
      rw [hside] at h hsides
      rw [hsides]
      cases hseparator : Separator.ofChar? c with
      | none =>
        rw [hseparator] at h
        cases h
        rfl
      | some separator =>
        rw [hseparator] at h
        cases h
        rw [Bool.xor_false] at hsides
        rw [hsides]
        rfl

/-- Each argument is read in capitals as it stands. -/
theorem ofText_capitals (quoted : Bool) (cs : List Char) :
    ofText (capitals quoted cs) = (ofText cs).map (inCapitals quoted) := by
  obtain ⟨item, items, hcut⟩ := List.exists_cons_of_ne_nil (cut_ne_nil false cs)
  rw [ofText, ofText, cut_capitals hcut, hcut, Bool.xor_false, ← List.map_cons, List.map_map,
    List.filter_map, List.filter_map, List.map_map]
  congr 1
  · funext item
    simp only [Function.comp, inCapitals, trim_capitals]
  · congr 1
    funext item
    have htext : (capitals quoted (trim item.text) == []) = (trim item.text == []) := by
      rw [Bool.eq_iff_iff, beq_iff_eq, beq_iff_eq, capitals_eq_nil_iff]
    simp only [Function.comp, inCapitals, trim_capitals, bne, htext]

end PrintItem

/-- A fault that quotes the text of a statement, in capitals. -/
def Fault.inCapitals (quoted : Bool) : Fault → Fault
  | .invalidName name => .invalidName (String.ofList (capitals quoted name.toList))
  | .malformedStatement keyword text =>
    .malformedStatement keyword (String.ofList (capitals quoted text.toList))
  | .unknownCommand word => .unknownCommand (String.ofList (capitals quoted word.toList))
  | f => f

/-- A FOR header in capitals. Its name is in upper case already. -/
def LoopHeader.inCapitals (quoted : Bool) (h : LoopHeader) : LoopHeader :=
  let atBound := quotedAfter quoted h.start
  let atStep := quotedAfter atBound h.bound
  { h with
    start := capitals quoted h.start
    bound := capitals atBound h.bound
    step := h.step.map (capitals atStep)
    text := String.ofList (capitals quoted h.text.toList) }

namespace Command

def inCapitals (quoted : Bool) : Command → Command
  | .print items => .print (items.map (PrintItem.inCapitals quoted))
  | .assign name value => .assign name (capitals quoted value)
  | .input name prompt => .input name (String.ofList (prompt.toList.map (capital (!quoted))))
  | .branch condition clause body =>
    let behind := quotedAfter quoted condition
    .branch (capitals quoted condition)
      (clause.map fun code => String.ofList (capitals behind code.toList)) (body.inCapitals behind)
  | .loop header => .loop (header.inCapitals quoted)
  | .invalid fault => .invalid (fault.inCapitals quoted)
  | c => c

theorem withName_capitals {quoted : Bool} {name : List Char} {k k' : String → Command}
    (h : '"' ∉ name → ∀ key, k' key = (k key).inCapitals quoted) :
    withName (capitals quoted name) k' = (withName name k).inCapitals quoted := by
  have hname : isName name = true → ∀ key, k' key = (k key).inCapitals quoted :=
    fun hname => h (notMem_of_isName hname)
  simp only [withName, normalName, String.toList_ofList, isName_capitals, upperString_capitals]
  split
  · next heq =>
    split at heq
    · next hisName =>
      cases heq
      simp only [hisName, if_true]
      exact hname hisName _
    · cases heq
  · next heq =>
    split at heq
    · cases heq
    · next hisName =>
      cases heq
      simp [hisName, inCapitals, Fault.inCapitals]

theorem assignment_capitals (quoted : Bool) (sides : List Char × List Char) :
    assignment (Shape.inCapitals quoted sides).1 (Shape.inCapitals quoted sides).2 =
      (assignment sides.1 sides.2).inCapitals quoted := by
  refine withName_capitals fun hname key => ?_
  rw [inCapitals, Shape.inCapitals, quotedAfter_of_notMem hname, trim_capitals]

theorem malformed_capitals (quoted : Bool) (keyword : Keyword) (text : List Char) :
    malformed keyword (capitals quoted text) = (malformed keyword text).inCapitals quoted := by
  rw [malformed, malformed, inCapitals, Fault.inCapitals, String.toList_ofList]

theorem ofLoopText_capitals (quoted : Bool) (rest : List Char) (parts : Shape.LoopText) :
    ofLoopText (capitals quoted rest) (parts.inCapitals quoted) =
      (ofLoopText rest parts).inCapitals quoted := by
  have htext : String.ofList (capitals quoted ("FOR" ++ String.ofList rest).toList) =
      "FOR" ++ String.ofList (capitals quoted rest) := by
    rw [String.toList_append, capitals_word_append (by cases quoted <;> rfl) (by decide),
      String.ofList_append, String.ofList_toList, String.toList_ofList]
  refine withName_capitals fun hname key => ?_
  rw [inCapitals, LoopHeader.inCapitals, Shape.LoopText.inCapitals, htext,
    quotedAfter_of_notMem hname]

/-- A statement in capitals is read as its command in capitals. -/
theorem ofTrimmed_capitals (quoted : Bool) (code : List Char) :
    ofTrimmed (capitals quoted code) = (ofTrimmed code).inCapitals quoted := by
  have hlet (quoted : Bool) (rest : List Char) :
      (Shape.afterBlanks? (capitals quoted rest)).bind Shape.assignment? =
        ((Shape.afterBlanks? rest).bind Shape.assignment?).map (Shape.inCapitals quoted) := by
    rw [Shape.afterBlanks?_capitals]
    cases Shape.afterBlanks? rest with
    | none => rfl
    | some cs => exact Shape.assignment?_capitals quoted cs
  -- the statement in capitals has the same keyword, whose case is then the one at hand
  rw [ofTrimmed_eq, Shape.keyword?_capitals]
  fun_induction ofTrimmed code generalizing quoted with
  | case1 code hcode name value hassign =>
    simp only [hcode, Option.map_none, Shape.assignment?_capitals, hassign, Option.map_some]
    exact assignment_capitals quoted (name, value)
  | case2 code hcode hassign =>
    simp only [hcode, Option.map_none, Shape.assignment?_capitals, hassign, firstWord_capitals,
      inCapitals, Fault.inCapitals, String.toList_ofList]
  | case3 code rest hcode =>
    simp only [hcode, Option.map_some, trim_capitals, PrintItem.ofText_capitals, inCapitals]
  | case4 code rest hcode name value hassign =>
    simp only [hcode, Option.map_some, hlet, hassign]
    exact assignment_capitals quoted (name, value)
  | case5 code rest hcode hassign =>
    simp only [hcode, Option.map_some, hlet, hassign, Option.map_none]
    exact malformed_capitals quoted .LET code
  | case6 code rest hcode prompt name hinput =>
    simp only [hcode, Option.map_some, Shape.input?_capitals, hinput]
    refine withName_capitals fun _ key => ?_
    rw [inCapitals, String.toList_ofList]
  | case7 code rest hcode hinput =>
    simp only [hcode, Option.map_some, Shape.input?_capitals, hinput, Option.map_none]
    exact malformed_capitals quoted .INPUT code
  | case8 code rest hcode line htarget | case10 code rest hcode line htarget =>
    simp only [hcode, Option.map_some, Shape.target?_capitals, htarget, inCapitals]
  | case9 code rest hcode htarget =>
    simp only [hcode, Option.map_some, Shape.target?_capitals, htarget]
    exact malformed_capitals quoted .GOTO code
  | case11 code rest hcode htarget =>
    simp only [hcode, Option.map_some, Shape.target?_capitals, htarget]
    exact malformed_capitals quoted .GOSUB code
  | case13 code rest hcode hconditional =>
    simp only [hcode, Option.map_some, Shape.conditional?_capitals, hconditional, Option.map_none]
    exact malformed_capitals quoted .IF code
  | case14 code rest hcode condition clause hconditional hdigits =>
    simp only [hcode, Option.map_some, Shape.conditional?_capitals, hconditional, Shape.inCapitals,
      all_capitals caseBlind_isDigit, hdigits, if_true, LineNumber.ofDigits_capitals]
    rfl
  | case15 code rest hcode condition clause hconditional hdigits ih =>
    simp only [hcode, Option.map_some, Shape.conditional?_capitals, hconditional, Shape.inCapitals,
      all_capitals caseBlind_isDigit, hdigits, Bool.false_eq_true, if_false]
    rw [ofTrimmed_eq, Shape.keyword?_capitals, ih, inCapitals, Option.map_some,
      String.toList_ofList]
  | case16 code rest hcode parts hloop =>
    simp only [hcode, Option.map_some, Shape.loop?_capitals, hloop]
    exact ofLoopText_capitals quoted rest parts
  | case17 code rest hcode hloop =>
    simp only [hcode, Option.map_some, Shape.loop?_capitals, hloop, Option.map_none]
    rw [← capitals_word_append (by cases quoted <;> rfl) (by decide)]
    exact malformed_capitals quoted .FOR ("FOR".toList ++ rest)
  | case18 code rest hcode name hnext =>
    simp only [hcode, Option.map_some, Shape.next?_capitals, hnext]
    exact withName_capitals fun _ _ => rfl
  | case19 code rest hcode hnext =>
    simp only [hcode, Option.map_some, Shape.next?_capitals, hnext, Option.map_none]
    rw [← capitals_word_append (by cases quoted <;> rfl) (by decide)]
    exact malformed_capitals quoted .NEXT ("NEXT".toList ++ rest)
  | case12 code rest hcode | case20 code rest hcode | case21 code rest hcode =>
    simp only [hcode, Option.map_some, inCapitals]

end Command

end LineBasic
