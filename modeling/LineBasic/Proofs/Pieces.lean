import LineBasic.Piece
import LineBasic.Proofs.Lexemes

/-!
How a text is cut into pieces. A stretch that opens neither a literal nor a word is cut into
single characters, and a literal and a word are pieces as a whole. So a text is cut by cutting
its stretches.
-/

namespace LineBasic

namespace Text

/-- Whether a word character stands before what follows a text. `before` tells whether one
stands before the text itself. -/
def wordAfter (before : Bool) (cs : List Char) : Bool := cs.foldl (fun _ c => isWord c) before

section WordAfter

variable {before : Bool} {cs : List Char}

@[simp] theorem wordAfter_nil (before : Bool) : wordAfter before [] = before := rfl

@[simp] theorem wordAfter_cons (before : Bool) (c : Char) (cs : List Char) :
    wordAfter before (c :: cs) = wordAfter (isWord c) cs := rfl

theorem wordAfter_append (before : Bool) (cs ds : List Char) :
    wordAfter before (cs ++ ds) = wordAfter (wordAfter before cs) ds := List.foldl_append

theorem wordAfter_of_forall (hcs : ∀ c ∈ cs, isWord c = true) (h : before = true ∨ cs ≠ []) :
    wordAfter before cs = true := by
  induction cs generalizing before with
  | nil => simpa using h
  | cons c cs ih =>
    rw [wordAfter_cons, hcs c List.mem_cons_self]
    exact ih (fun d hd => hcs d (List.mem_cons_of_mem c hd)) (.inl rfl)

end WordAfter

end Text

namespace Piece

/-- Whether a stretch opens neither a literal nor a word. `afterWord` tells whether a word
character stands before it. -/
def isBare (afterWord : Bool) : List Char → Bool
  | [] => true
  | c :: cs => c != '"' && (afterWord || !isNameStart c) && isBare (Text.isWord c) cs

section Bare

variable {afterWord : Bool} {c : Char} {cs rest : List Char}

theorem isBare_cons : isBare afterWord (c :: cs) = true ↔
    (c ≠ '"' ∧ (afterWord = true ∨ isNameStart c = false)) ∧ isBare (Text.isWord c) cs = true := by
  simp [isBare]

theorem isBare_append (afterWord : Bool) (cs ds : List Char) : isBare afterWord (cs ++ ds) =
    (isBare afterWord cs && isBare (Text.wordAfter afterWord cs) ds) := by
  induction cs generalizing afterWord with
  | nil => rfl
  | cons c cs ih =>
    rw [List.cons_append, isBare, isBare, ih, Text.wordAfter_cons]
    simp only [Bool.and_assoc]

/-- Characters that are neither quotes nor letters open nothing. -/
theorem isBare_of_forall (hcs : ∀ c ∈ cs, c ≠ '"' ∧ isNameStart c = false) (afterWord : Bool) :
    isBare afterWord cs = true := by
  induction cs generalizing afterWord with
  | nil => rfl
  | cons c cs ih =>
    obtain ⟨hquote, hstart⟩ := hcs c List.mem_cons_self
    have hrest := ih (fun d hd => hcs d (List.mem_cons_of_mem c hd)) (Text.isWord c)
    exact isBare_cons.mpr ⟨⟨hquote, .inr hstart⟩, hrest⟩

theorem isBare_digits (hcs : ∀ c ∈ cs, Text.isDigit c = true) (afterWord : Bool) :
    isBare afterWord cs = true :=
  isBare_of_forall (fun c hc => ⟨ne_of_isDigit (hcs c hc) (by decide),
    isNameStart_of_isDigit (hcs c hc)⟩) afterWord

/-- Behind a word character a power of ten opens nothing. -/
theorem isBare_power {p : Power} (hp : p.IsSpelled) : isBare true p.spelling = true := by
  have hmark : p.mark ≠ '"' ∧ isBare (Text.isWord p.mark) p.sign = true := by
    rcases hp.mark with hmark | hmark <;> rcases hp.sign with hsign | hsign | hsign <;>
      rw [hmark, hsign] <;> decide
  rw [Power.spelling, isBare_append, Bool.and_eq_true]
  constructor
  · exact isBare_cons.mpr ⟨⟨hmark.1, .inl rfl⟩, hmark.2⟩
  · exact isBare_digits hp.digits _

theorem isBare_optionalPower {x : Numeral} (hx : x.IsSpelled)
    (hword : x.power ≠ none → afterWord = true) :
    isBare afterWord (x.power.elim [] Power.spelling) = true := by
  cases hp : x.power with
  | none => rfl
  | some p =>
    rw [hword (by simp [hp])]
    exact isBare_power (hx.power p hp)

/-- A numeral opens nothing, unless its power of ten stands behind a bare point. -/
theorem isBare_numeral {x : Numeral} (hx : x.IsSpelled)
    (hpower : x.power ≠ none → x.fraction ≠ some []) (afterWord : Bool) :
    isBare afterWord x.spelling = true := by
  have hword {before : Bool} {ds : List Char} (hds : ∀ c ∈ ds, Text.isDigit c = true)
      (hne : ds ≠ []) : Text.wordAfter before ds = true :=
    Text.wordAfter_of_forall (fun c hc => Text.isWord_of_isDigit (hds c hc)) (.inr hne)
  rw [Numeral.spelling, List.append_assoc, isBare_append, isBare_append,
    isBare_digits hx.whole, Bool.true_and, Bool.and_eq_true]
  cases hf : x.fraction with
  | none =>
    constructor
    · rfl
    · refine isBare_optionalPower hx fun _ => ?_
      rw [Option.elim_none, Text.wordAfter_nil]
      refine hword hx.whole fun hnil => ?_
      obtain ⟨d, ds, hds⟩ := hx.has_digit hnil
      rw [hf] at hds
      cases hds
  | some fs =>
    constructor
    · exact isBare_cons.mpr ⟨⟨by decide, .inr (by decide)⟩, isBare_digits (hx.fraction fs hf) _⟩
    · refine isBare_optionalPower hx fun hp => ?_
      rw [Option.elim_some, Text.wordAfter_cons]
      refine hword (hx.fraction fs hf) ?_
      rintro rfl
      exact hpower hp hf

end Bare

section Cut

variable {afterWord : Bool} {c : Char} {cs content rest : List Char}

@[simp] theorem cut_nil (afterWord : Bool) : cut afterWord [] = [] := by
  rw [cut]

/-- A stretch that opens nothing is cut into its characters. -/
theorem cut_bare (h : isBare afterWord cs = true) (rest : List Char) :
    cut afterWord (cs ++ rest) = cs.map other ++ cut (Text.wordAfter afterWord cs) rest := by
  induction cs generalizing afterWord with
  | nil => rfl
  | cons c cs ih =>
    obtain ⟨⟨hquote, hstart⟩, hcs⟩ := isBare_cons.mp h
    have hnot : ¬ ((!afterWord && isNameStart c) = true) := by
      rcases hstart with hstart | hstart <;> simp [hstart]
    rw [List.cons_append, cut, if_neg hquote, if_neg hnot, ih hcs]
    rfl

theorem cut_quote (h : cs.dropWhile isInsideQuotes = '"' :: rest) (afterWord : Bool) :
    cut afterWord ('"' :: cs) = .quoted (cs.takeWhile isInsideQuotes) :: cut false rest := by
  rw [cut, if_pos rfl]
  split <;> rename_i heq <;> cases h.symm.trans heq
  rfl

theorem cut_quote_of_nil (h : cs.dropWhile isInsideQuotes = []) (afterWord : Bool) :
    cut afterWord ('"' :: cs) = .other '"' :: cut false cs := by
  rw [cut, if_pos rfl]
  split <;> rename_i heq <;> cases h.symm.trans heq
  rfl

/-- A text literal is a piece. -/
theorem cut_quoted (h : ∀ c ∈ content, isInsideQuotes c = true) (afterWord : Bool)
    (rest : List Char) :
    cut afterWord ('"' :: (content ++ '"' :: rest)) = .quoted content :: cut false rest := by
  have hquote : StopsAt isInsideQuotes ('"' :: rest) := stopsAt_cons (by decide)
  rw [cut_quote (dropWhile_run h hquote), takeWhile_run h hquote]

/-- A word is a piece. -/
theorem cut_word (hstart : isNameStart c = true) (hcs : ∀ d ∈ cs, Text.isWord d = true)
    (hrest : StopsAt Text.isWord rest) :
    cut false (c :: cs ++ rest) = .word (c :: cs) :: cut true rest := by
  have hquote : c ≠ '"' := by
    rintro rfl
    revert hstart
    decide
  rw [List.cons_append, cut, if_neg hquote, if_pos (by simp [hstart]), takeWhile_run hcs hrest,
    dropWhile_run hcs hrest]

end Cut

end Piece

end LineBasic
