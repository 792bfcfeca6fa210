import Mathlib.Algebra.Group.Nat.Even
import Mathlib.Data.List.Induction
import LineBasic.Environment
import LineBasic.Proofs.Characters

/-!
Texts in capitals. `Text.capitals` puts the ASCII letters of a text into upper
case, but for those inside text literals. Two texts that are the same in capitals
differ in the case of such letters only. A text is cut and trimmed in capitals
where it is cut and trimmed as it is written, because no class of characters
tells the cases apart.
-/

namespace LineBasic

namespace Text

/-- Whether a text goes on inside a text literal behind a character; `quoted`
tells whether it was inside one before. -/
def turn (quoted : Bool) (c : Char) : Bool := if c = '"' then !quoted else quoted

def quotedAfter (quoted : Bool) (cs : List Char) : Bool := cs.foldl turn quoted

def capital (quoted : Bool) (c : Char) : Char := if quoted then c else c.toUpper

/-- The text in capitals, but for its text literals. `quoted` tells whether it
starts inside one. -/
def capitals (quoted : Bool) : List Char → List Char
  | [] => []
  | c :: cs => capital quoted c :: capitals (turn quoted c) cs

/-- Whether a function of characters does not tell a letter from its capital. -/
def CaseBlind {α : Type} (p : Char → α) : Prop := ∀ quoted c, p (capital quoted c) = p c

section Letters

variable {α : Type} {quoted : Bool} {c : Char}

/-- What is the same for every pair of an upper and a lower case letter is the same
for every character and its capital. -/
theorem caseBlind_of_letters {p : Char → α}
    (h : ∀ k : Fin 26, p (Char.ofNat (65 + k)) = p (Char.ofNat (97 + k))) : CaseBlind p := by
  intro quoted c
  rw [capital]
  split
  · rfl
  · by_cases hc : 97 ≤ c.toNat ∧ c.toNat ≤ 122
    · have hk : c.toNat - 97 < 26 := by omega
      have hlower : Char.ofNat (97 + (c.toNat - 97)) = c := by
        rw [Nat.add_sub_cancel' hc.1, Char.ofNat_toNat]
      have hupper : ∀ k : Fin 26, (Char.ofNat (97 + k)).toUpper = Char.ofNat (65 + k) := by decide
      have hpair := hupper ⟨c.toNat - 97, hk⟩
      have hletter := h ⟨c.toNat - 97, hk⟩
      simp only [hlower] at hletter hpair
      rw [hpair, hletter]
    · have hself : c.toUpper = c := dif_neg fun h => hc h
      rw [hself]

theorem CaseBlind.not {p : Char → Bool} (hp : CaseBlind p) : CaseBlind fun c => !p c :=
  fun quoted c => congrArg (!·) (hp quoted c)

theorem caseBlind_isBlank : CaseBlind isBlank := caseBlind_of_letters (by decide)

theorem caseBlind_digit? : CaseBlind digit? := caseBlind_of_letters (by decide)

theorem caseBlind_isDigit : CaseBlind isDigit := caseBlind_of_letters (by decide)

theorem caseBlind_isLetter : CaseBlind isLetter := caseBlind_of_letters (by decide)

theorem caseBlind_isWord : CaseBlind isWord := caseBlind_of_letters (by decide)

theorem caseBlind_upperChar : CaseBlind upperChar := caseBlind_of_letters (by decide)

theorem caseBlind_toUpper : CaseBlind Char.toUpper := caseBlind_of_letters (by decide)

/-- A character that is no letter is the capital of itself only. -/
theorem capital_eq_iff {k : Char} (h : isLetter k = false) : capital quoted c = k ↔ c = k := by
  have hne : ∀ d, isLetter d = true → decide (d = k) = false := by
    rintro d hd
    refine decide_eq_false fun heq => ?_
    rw [heq, h] at hd
    cases hd
  have hupper : ∀ k : Fin 26, isLetter (Char.ofNat (65 + k)) = true := by decide
  have hlower : ∀ k : Fin 26, isLetter (Char.ofNat (97 + k)) = true := by decide
  have hblind : CaseBlind fun c => decide (c = k) :=
    caseBlind_of_letters fun i => (hne _ (hupper i)).trans (hne _ (hlower i)).symm
  exact decide_eq_decide.mp (hblind quoted c)

theorem capital_of_not_isLetter (h : isLetter c = false) : capital quoted c = c :=
  (capital_eq_iff h).mpr rfl

/-- Such a function is the same for characters with the same capital. -/
theorem CaseBlind.eq_of_capital {p : Char → α} (hp : CaseBlind p) {d : Char}
    (h : capital quoted d = capital quoted c) : p d = p c := by
  rw [← hp quoted d, h, hp]

theorem capital_capital : capital quoted (capital quoted c) = capital quoted c := by
  cases quoted with
  | true => rfl
  | false => exact caseBlind_toUpper false c

end Letters

section Turns

variable {quoted : Bool} {c : Char} {cs : List Char}

@[simp] theorem turn_quote (quoted : Bool) : turn quoted '"' = !quoted := rfl

theorem turn_of_ne (h : c ≠ '"') (quoted : Bool) : turn quoted c = quoted := if_neg h

theorem turn_of_isBlank (h : isBlank c = true) (quoted : Bool) : turn quoted c = quoted := by
  refine turn_of_ne ?_ quoted
  rintro rfl
  cases h

@[simp] theorem turn_capital (inside : Bool) : turn quoted (capital inside c) = turn quoted c := by
  simp only [turn, capital_eq_iff (k := '"') rfl]

@[simp] theorem quotedAfter_nil (quoted : Bool) : quotedAfter quoted [] = quoted := rfl

@[simp] theorem quotedAfter_cons (quoted : Bool) (c : Char) (cs : List Char) :
    quotedAfter quoted (c :: cs) = quotedAfter (turn quoted c) cs := rfl

theorem quotedAfter_append (quoted : Bool) (cs ds : List Char) :
    quotedAfter quoted (cs ++ ds) = quotedAfter (quotedAfter quoted cs) ds := List.foldl_append

theorem quotedAfter_of_notMem (h : '"' ∉ cs) (quoted : Bool) : quotedAfter quoted cs = quoted := by
  induction cs with
  | nil => rfl
  | cons c cs ih =>
    obtain ⟨hc, hcs⟩ := not_or.mp (mt List.mem_cons.mpr h)
    rw [quotedAfter_cons, turn_of_ne (Ne.symm hc), ih hcs]

/-- A text ends outside text literals exactly if it holds an even number of quotes. -/
theorem quotedAfter_eq_false_iff : quotedAfter false cs = false ↔ Even (cs.count '"') := by
  induction cs using List.reverseRecOn with
  | nil => simp
  | append_singleton cs c ih =>
    rw [quotedAfter_append, List.count_append, quotedAfter_cons, quotedAfter_nil]
    by_cases hc : c = '"'
    · rw [hc, turn_quote, Bool.not_eq_false', List.count_singleton_self, Nat.even_add_one, ← ih,
        Bool.not_eq_false]
    · have hnone : [c].count '"' = 0 := List.count_eq_zero.mpr (by simpa using Ne.symm hc)
      rw [turn_of_ne hc, hnone, Nat.add_zero, ih]

/-- A run of characters without quotes stays inside or outside. -/
theorem quotedAfter_of_forall {p : Char → Bool} (hp : p '"' = false)
    (h : ∀ c ∈ cs, p c = true) (quoted : Bool) : quotedAfter quoted cs = quoted :=
  quotedAfter_of_notMem (fun hmem => Bool.false_ne_true (hp.symm.trans (h _ hmem))) quoted

/-- A text literal ends on the side that it starts on. -/
theorem quotedAfter_literal (h : '"' ∉ cs) (quoted : Bool) :
    quotedAfter quoted ('"' :: cs ++ ['"']) = quoted := by
  rw [List.cons_append, quotedAfter_cons, quotedAfter_append, quotedAfter_of_notMem h,
    quotedAfter_cons, turn_quote, turn_quote, Bool.not_not, quotedAfter_nil]

end Turns

section Lists

variable {quoted : Bool} {c : Char} {cs ds : List Char} {p : Char → Bool}

@[simp] theorem capitals_nil : capitals quoted [] = [] := rfl

@[simp] theorem capitals_cons :
    capitals quoted (c :: cs) = capital quoted c :: capitals (turn quoted c) cs := rfl

/-- A character that is neither a letter nor a quote stays, and so does the side of
the text behind it. -/
theorem capitals_cons_of_plain (hletter : isLetter c = false) (hquote : c ≠ '"') :
    capitals quoted (c :: cs) = c :: capitals quoted cs := by
  rw [capitals_cons, capital_of_not_isLetter hletter, turn_of_ne hquote]

theorem capitals_quote : capitals quoted ('"' :: cs) = '"' :: capitals (!quoted) cs := by
  rw [capitals_cons, capital_of_not_isLetter (by decide), turn_quote]

theorem capitals_append (quoted : Bool) (cs ds : List Char) :
    capitals quoted (cs ++ ds) = capitals quoted cs ++ capitals (quotedAfter quoted cs) ds := by
  induction cs generalizing quoted with
  | nil => rfl
  | cons c cs ih => rw [List.cons_append, capitals_cons, ih]; rfl

@[simp] theorem length_capitals : (capitals quoted cs).length = cs.length := by
  induction cs generalizing quoted with
  | nil => rfl
  | cons c cs ih => rw [capitals_cons, List.length_cons, List.length_cons, ih]

@[simp] theorem capitals_eq_nil_iff : capitals quoted cs = [] ↔ cs = [] := by
  cases cs <;> simp

/-- A text in capitals starts with a character that is no letter only where the text
does. -/
theorem exists_of_capitals_cons {k : Char} (hletter : isLetter k = false)
    (h : capitals quoted cs = k :: ds) : ∃ es, cs = k :: es ∧ capitals (turn quoted k) es = ds := by
  cases cs with
  | nil => cases h
  | cons c cs =>
    obtain ⟨hc, hcs⟩ := List.cons.inj h
    obtain rfl := (capital_eq_iff hletter).mp hc
    exact ⟨cs, rfl, hcs⟩

/-- Texts that are the same in capitals start alike and go on alike. -/
theorem exists_cons_of_capitals (h : capitals quoted ds = capitals quoted (c :: cs)) :
    ∃ d es, ds = d :: es ∧ capital quoted d = capital quoted c ∧
      capitals (turn quoted c) es = capitals (turn quoted c) cs := by
  cases ds with
  | nil => cases h
  | cons d es =>
    obtain ⟨hd, hes⟩ := List.cons.inj h
    have hturn : turn quoted d = turn quoted c := by
      rw [← turn_capital quoted, hd, turn_capital]
    exact ⟨d, es, rfl, hd, hturn ▸ hes⟩

/-- A word in upper case stays in front of a text. -/
theorem capitals_word_append (hword : capitals quoted ds = ds) (hquote : '"' ∉ ds)
    (cs : List Char) : capitals quoted (ds ++ cs) = ds ++ capitals quoted cs := by
  rw [capitals_append, hword, quotedAfter_of_notMem hquote]

theorem any_head?_capitals (hp : CaseBlind p) :
    (capitals quoted cs).head?.any p = cs.head?.any p := by
  cases cs with
  | nil => rfl
  | cons c cs => exact hp quoted c

@[simp] theorem quotedAfter_capitals (inside : Bool) :
    quotedAfter quoted (capitals inside cs) = quotedAfter quoted cs := by
  induction cs generalizing quoted inside with
  | nil => rfl
  | cons c cs ih => rw [capitals_cons, quotedAfter_cons, quotedAfter_cons, turn_capital, ih]

theorem quotedAfter_congr (h : capitals quoted cs = capitals quoted ds) :
    quotedAfter quoted cs = quotedAfter quoted ds := by
  rw [← quotedAfter_capitals quoted, h, quotedAfter_capitals]

@[simp] theorem capitals_capitals : capitals quoted (capitals quoted cs) = capitals quoted cs := by
  induction cs generalizing quoted with
  | nil => rfl
  | cons c cs ih => simp only [capitals_cons, capital_capital, turn_capital, ih]

/-- A text without ASCII letters is in capitals. -/
theorem capitals_of_forall (h : ∀ c ∈ cs, isLetter c = false) (quoted : Bool) :
    capitals quoted cs = cs := by
  induction cs generalizing quoted with
  | nil => rfl
  | cons c cs ih =>
    obtain ⟨hc, hcs⟩ := List.forall_mem_cons.mp h
    rw [capitals_cons, capital_of_not_isLetter hc, ih hcs]

/-- A text without quotes is on one side. -/
theorem capitals_of_notMem (h : '"' ∉ cs) (quoted : Bool) :
    capitals quoted cs = cs.map (capital quoted) := by
  induction cs with
  | nil => rfl
  | cons c cs ih =>
    obtain ⟨hc, hcs⟩ := not_or.mp (mt List.mem_cons.mpr h)
    rw [capitals_cons, turn_of_ne (Ne.symm hc), ih hcs, List.map_cons]

theorem map_capital_true (cs : List Char) : cs.map (capital true) = cs := List.map_id cs

theorem map_capitals {α : Type} {f : Char → α} (hf : CaseBlind f) :
    (capitals quoted cs).map f = cs.map f := by
  induction cs generalizing quoted with
  | nil => rfl
  | cons c cs ih => rw [capitals_cons, List.map_cons, List.map_cons, hf, ih]

theorem all_capitals (hp : CaseBlind p) : (capitals quoted cs).all p = cs.all p := by
  induction cs generalizing quoted with
  | nil => rfl
  | cons c cs ih => rw [capitals_cons, List.all_cons, List.all_cons, hp, ih]

theorem takeWhile_capitals (hp : CaseBlind p) :
    (capitals quoted cs).takeWhile p = capitals quoted (cs.takeWhile p) := by
  induction cs generalizing quoted with
  | nil => rfl
  | cons c cs ih =>
    rw [capitals_cons, List.takeWhile_cons, List.takeWhile_cons, hp, ih]
    split <;> rfl

theorem dropWhile_capitals (hp : CaseBlind p) : (capitals quoted cs).dropWhile p =
    capitals (quotedAfter quoted (cs.takeWhile p)) (cs.dropWhile p) := by
  induction cs generalizing quoted with
  | nil => rfl
  | cons c cs ih =>
    rw [capitals_cons, List.dropWhile_cons, List.dropWhile_cons, List.takeWhile_cons, hp, ih]
    split <;> rfl

/-- Behind a run of characters without quotes a text is inside a literal if it was
before. -/
theorem dropWhile_capitals_of_quote (hp : CaseBlind p) (hquote : p '"' = false) :
    (capitals quoted cs).dropWhile p = capitals quoted (cs.dropWhile p) := by
  rw [dropWhile_capitals hp, quotedAfter_of_forall hquote fun c hc => mem_takeWhile hc]

theorem trimLeft_capitals : trimLeft (capitals quoted cs) = capitals quoted (trimLeft cs) :=
  dropWhile_capitals_of_quote caseBlind_isBlank (by decide)

theorem trimRight_capitals : trimRight (capitals quoted cs) = capitals quoted (trimRight cs) := by
  induction cs generalizing quoted with
  | nil => rfl
  | cons c cs ih =>
    rw [capitals_cons, trimRight, ih, trimRight]
    cases trimRight cs with
    | nil =>
      simp only [capitals_nil, caseBlind_isBlank _ _]
      split <;> rfl
    | cons d ds => rfl

theorem trim_capitals : trim (capitals quoted cs) = capitals quoted (trim cs) := by
  rw [trim, trim, trimLeft_capitals, trimRight_capitals]

theorem quotedAfter_trimLeft : quotedAfter quoted (trimLeft cs) = quotedAfter quoted cs := by
  have hblanks : quotedAfter quoted (cs.takeWhile isBlank) = quoted :=
    quotedAfter_of_forall (by decide) (fun c hc => mem_takeWhile hc) quoted
  calc quotedAfter quoted (trimLeft cs)
    _ = quotedAfter quoted (cs.takeWhile isBlank ++ cs.dropWhile isBlank) := by
      rw [quotedAfter_append, hblanks, trimLeft]
    _ = quotedAfter quoted cs := by rw [List.takeWhile_append_dropWhile]

theorem quotedAfter_trimRight : quotedAfter quoted (trimRight cs) = quotedAfter quoted cs := by
  induction cs generalizing quoted with
  | nil => rfl
  | cons c cs ih =>
    rw [trimRight, quotedAfter_cons, ← ih]
    cases hright : trimRight cs with
    | nil =>
      simp only [quotedAfter_nil]
      split
      · next hc => rw [quotedAfter_nil, turn_of_isBlank hc]
      · rfl
    | cons d ds => rfl

theorem quotedAfter_trim : quotedAfter quoted (trim cs) = quotedAfter quoted cs := by
  rw [trim, quotedAfter_trimRight, quotedAfter_trimLeft]

theorem firstWord_capitals : firstWord (capitals quoted cs) = capitals quoted (firstWord cs) := by
  rw [firstWord, firstWord, trimLeft_capitals, takeWhile_capitals caseBlind_isBlank.not]

theorem upper_capitals : upper (capitals quoted cs) = upper cs := by
  rw [upper, upper, List.flatMap_def, List.flatMap_def, map_capitals caseBlind_upperChar]

theorem digitsValue_capitals : digitsValue (capitals quoted cs) = digitsValue cs := by
  have hfold (ds : List Char) :
      digitsValue ds = (ds.map digit?).foldl (fun n d => 10 * n + d.getD 0) 0 := by
    rw [digitsValue, List.foldl_map]
  rw [hfold, hfold, map_capitals caseBlind_digit?]

end Lists

end Text

section Names

variable {quoted : Bool} {cs : List Char}

theorem isName_capitals : isName (Text.capitals quoted cs) = isName cs := by
  cases cs with
  | nil => rfl
  | cons c cs =>
    rw [Text.capitals_cons, isName, isName, Text.caseBlind_isLetter,
      Text.all_capitals Text.caseBlind_isWord]

theorem notMem_of_isName (h : isName cs = true) : '"' ∉ cs := by
  intro hmem
  cases cs with
  | nil => cases hmem
  | cons c cs =>
    rw [isName, Bool.and_eq_true, List.all_eq_true] at h
    rcases List.mem_cons.mp hmem with rfl | hmem
    · exact absurd h.1 (by decide)
    · exact absurd (h.2 _ hmem) (by decide)

/-- A name in capitals is the same name. -/
theorem upperString_capitals : Text.upperString (String.ofList (Text.capitals quoted cs)) =
    Text.upperString (String.ofList cs) := by
  rw [Text.upperString, Text.upperString, String.toList_ofList, String.toList_ofList,
    Text.upper_capitals]

theorem Environment.get?_capitals (env : Environment) :
    env.get? (String.ofList (Text.capitals quoted cs)) = env.get? (String.ofList cs) := by
  rw [get?, get?, upperString_capitals]

end Names

end LineBasic
