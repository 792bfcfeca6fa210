import LineBasic.Proofs.Enclosures
import LineBasic.Proofs.Printing
import LineBasic.Proofs.TokenSubstitution

/-!
How often a name stands in a text. Among the tokens of an expression no word goes on from one
to the next, so the names among them are the identifiers of the text outside its literals. The
one exception is a power of ten behind a bare point, which starts with the letter E.
-/

namespace LineBasic

namespace Text

/-- How often a name in upper case stands in a text, in any case and outside the literals, if a
word may go on in front of the text. -/
def occurrencesAfter (afterWord : Bool) (name cs : List Char) : Nat :=
  (identifiersAfter afterWord cs).countP fun w => upper w = name

/-- How often a name in upper case stands in a text, in any case and outside the literals. -/
def occurrences (name cs : List Char) : Nat := occurrencesAfter false name cs

section Identifiers

variable {afterWord : Bool} {c : Char} {cs w blanks : List Char}

/-- A stretch that opens neither a literal nor a word holds no identifier. -/
theorem identifiersAfter_bare (h : Piece.isBare afterWord w = true) (rest : List Char) :
    identifiersAfter afterWord (w ++ rest) = identifiersAfter (wordAfter afterWord w) rest := by
  induction w generalizing afterWord with
  | nil => rfl
  | cons c w ih =>
    obtain ⟨⟨hquote, hstart⟩, hw⟩ := Piece.isBare_cons.mp h
    rw [List.cons_append, identifiersAfter_other hquote hstart, ih hw, wordAfter_cons]

theorem plain_of_isBlank (h : isBlank c = true) :
    c ≠ '"' ∧ isNameStart c = false ∧ isWord c = false := by
  have hword : isWord c = false := by
    refine Bool.eq_false_iff.mpr fun hword => ?_
    rw [isBlank_of_isWord hword] at h
    cases h
  refine ⟨?_, Bool.eq_false_iff.mpr fun hstart => ?_, hword⟩
  · rintro rfl
    cases h
  · rw [isWord_of_isNameStart hstart] at hword
    cases hword

theorem identifiers_blank (h : isBlank c = true) (cs : List Char) :
    identifiers (c :: cs) = identifiers cs := by
  obtain ⟨hquote, hstart, hword⟩ := plain_of_isBlank h
  rw [identifiers, identifiersAfter_other hquote (.inr hstart), hword, identifiers]

/-- A blank behind a text stands in a literal that is not closed, or it ends the last run. -/
theorem identifiers_concat_blank (h : isBlank c = true) (cs : List Char) :
    identifiers (cs ++ [c]) = identifiers cs := by
  obtain ⟨hquote, -, hword⟩ := plain_of_isBlank h
  have hruns : runs (cs ++ [c]) = runs cs ∨ runs (cs ++ [c]) = runs cs ++ [[]] := by
    rw [runs, runs, outside_append]
    cases quotedAfter false cs with
    | true => simp [outside, hquote]
    | false =>
      have hsplit : (outside false cs ++ [c]).splitOnP (fun d => !isWord d) =
          (outside false cs).splitOnP (fun d => !isWord d) ++ [[]] :=
        List.splitOnP_append_cons _ [] (by simp [hword])
      simp [outside, hsplit]
  rcases hruns with hruns | hruns <;> simp [identifiers, identifiersAfter, hruns]

theorem identifiers_append_blanks (h : ∀ c ∈ blanks, isBlank c = true) (cs : List Char) :
    identifiers (cs ++ blanks) = identifiers cs := by
  induction blanks generalizing cs with
  | nil => rw [List.append_nil]
  | cons c blanks ih =>
    obtain ⟨hc, hblanks⟩ := List.forall_mem_cons.mp h
    rw [List.append_cons, ih hblanks, identifiers_concat_blank hc]

theorem identifiers_blanks_append (h : ∀ c ∈ blanks, isBlank c = true) (cs : List Char) :
    identifiers (blanks ++ cs) = identifiers cs := by
  induction blanks with
  | nil => rfl
  | cons c blanks ih =>
    obtain ⟨hc, hblanks⟩ := List.forall_mem_cons.mp h
    rw [List.cons_append, identifiers_blank hc, ih hblanks]

/-- Trimming a text takes no identifier from it. -/
theorem identifiers_trim (cs : List Char) : identifiers (trim cs) = identifiers cs := by
  obtain ⟨front, back, hfront, hback, hcs⟩ := exists_append_trim cs
  rw [← identifiers_append_blanks hback, ← identifiers_blanks_append hfront, ← hcs]

theorem occurrences_trim (name cs : List Char) :
    occurrences name (trim cs) = occurrences name cs := by
  rw [occurrences, occurrencesAfter, ← identifiers, identifiers_trim]
  rfl

end Identifiers

section Outside

variable {cs w : List Char}

/-- Trimming a text only shortens what is outside its literals. -/
theorem infix_outside_trim (cs : List Char) : outside false (trim cs) <:+: outside false cs := by
  obtain ⟨front, back, hfront, -, hcs⟩ := exists_append_trim cs
  have hquoted : quotedAfter false front = false :=
    quotedAfter_of_forall (by decide) hfront false
  refine ⟨outside false front, outside (quotedAfter false (trim cs)) back, ?_⟩
  conv_rhs => rw [hcs]
  rw [outside_append, outside_append, hquoted, List.append_assoc]

theorem prefix_of_prefix_outside (hw : '"' ∉ w) (h : w <+: outside false cs) : w <+: cs := by
  induction w generalizing cs with
  | nil => exact List.nil_prefix
  | cons c w ih =>
    obtain ⟨hc, hw⟩ := List.ne_and_not_mem_of_not_mem_cons hw
    cases cs with
    | nil => exact h
    | cons d cs =>
      rw [outside, if_neg (by simp)] at h
      obtain ⟨rfl, h⟩ := List.cons_prefix_cons.mp h
      rw [turn_of_ne (Ne.symm hc)] at h
      exact List.cons_prefix_cons.mpr ⟨rfl, ih hw h⟩

/-- What holds no quote and stands in a text outside its literals stands in the text. -/
theorem infix_of_infix_outside {quoted : Bool} (hw : '"' ∉ w) (h : w <:+: outside quoted cs) :
    w <:+: cs := by
  fun_induction outside quoted cs with
  | case1 => exact h
  | case2 quoted c cs _ ih => exact List.infix_cons (ih h)
  | case3 quoted c cs hkept ih =>
    rcases List.infix_cons_iff.mp h with hprefix | hinfix
    · cases w with
      | nil => exact List.nil_infix
      | cons d w =>
        obtain ⟨rfl, hrest⟩ := List.cons_prefix_cons.mp hprefix
        obtain ⟨hd, hw⟩ := List.ne_and_not_mem_of_not_mem_cons hw
        obtain rfl : quoted = false := by simpa [Ne.symm hd] using hkept
        rw [turn_of_ne (Ne.symm hd)] at hrest
        have hfront := prefix_of_prefix_outside hw hrest
        exact (List.cons_prefix_cons.mpr ⟨rfl, hfront⟩).isInfix
    · exact List.infix_cons (ih hinfix)

end Outside

end Text

open Text

namespace Token

def isNamed (name : List Char) : Token → Bool
  | .name cs => upper cs = name
  | _ => false

/-- Whether no word goes on from one token to another behind it. -/
def Apart (t t' : Token) : Prop :=
  ∀ before, wordAfter before t.spelling = true → StopsAt isWord t'.spelling

section Spelling

variable {t t' : Token} {name rest : List Char} {before : Bool}

theorem Separates.stopsAt (h : t.Separates) : StopsAt isWord t.spelling := by
  cases t with
  | operator op => cases op <;> exact stopsAt_cons (by decide)
  | lparen | rparen => exact stopsAt_cons (by decide)
  | _ => exact absurd h id

theorem wordAfter_operator (op : BinaryOp) (before : Bool) :
    wordAfter before op.symbol.toList = false := by
  cases op <;> cases before <;> decide

/-- Only an operand ends in a word, and no word follows an operand. -/
theorem Meets.apart (h : t.Meets t') : t.Apart t' := by
  intro before hword
  cases h with
  | closed _ h' => exact h'.stopsAt
  | opened h _ =>
    rcases h with rfl | ⟨op, rfl⟩
    · cases hword
    · rw [spelling, wordAfter_operator] at hword
      cases hword
  | lparen => cases hword

/-- An exposed power of ten is an identifier, and no name that does not start with its letter. -/
theorem occurrencesAfter_exposed {x : Numeral} {p : Power} (hx : x.IsSpelled)
    (hp : x.exposed? = some p) (hname : name.head? ≠ some 'E')
    (hrest : wordAfter before x.spelling = true → StopsAt isWord rest) :
    occurrencesAfter before name (x.spelling ++ rest) =
      occurrencesAfter (wordAfter before x.spelling) name rest := by
  obtain ⟨-, hpower, hspelling⟩ := Numeral.spelling_of_exposed hp
  have hspelled := hx.power p hpower
  obtain ⟨hbare, hpoint⟩ := Numeral.isBare_point hx before
  have hcut : x.spelling = (x.whole ++ ['.']) ++ (p.word ++ p.behindWord) := by
    rw [hspelling, ← p.word_append_behindWord, List.append_assoc]
    rfl
  have hmark := Power.isNameStart_mark hspelled
  have hdigits := Power.forall_isWord hspelled
  have hword : wordAfter false p.word = true := by
    rw [Power.word, wordAfter_cons]
    exact wordAfter_of_forall hdigits (.inl (isWord_of_isNameStart hmark))
  have hend : wordAfter before x.spelling = wordAfter true p.behindWord := by
    rw [hcut, wordAfter_append, hpoint, wordAfter_append, hword]
  have hstops : StopsAt isWord (p.behindWord ++ rest) := by
    refine Power.stopsAt_behindWord hspelled (hrest ?_)
    rw [hend]
    rcases Power.behindWord_cases hspelled with hnil | ⟨c, -, hcons⟩
    · rw [hnil]
      rfl
    · rw [hcons, wordAfter_cons]
      exact wordAfter_of_forall (fun d hd => isWord_of_isDigit (hspelled.digits d hd))
        (.inr hspelled.ne_nil)
  have hne : upper p.word ≠ name := by
    rintro rfl
    exact hname (Power.head?_upper_word hspelled)
  have hidentifiers : identifiersAfter before (x.spelling ++ rest) =
      p.word :: identifiersAfter (wordAfter before x.spelling) rest := by
    rw [hend, hcut, List.append_assoc (x.whole ++ ['.']), List.append_assoc p.word,
      identifiersAfter_bare hbare, hpoint, Power.word, identifiersAfter_word hmark hdigits hstops,
      identifiersAfter_bare (Power.isBare_behindWord hspelled)]
  rw [occurrencesAfter, hidentifiers, List.countP_cons_of_neg (by simpa using hne),
    occurrencesAfter]

/-- A token is an occurrence of a name if it is that name. -/
theorem occurrencesAfter_spelling (ht : t.IsSpelled) (hname : name.head? ≠ some 'E')
    (hbefore : before = true → StopsAt isWord t.spelling)
    (hrest : wordAfter before t.spelling = true → StopsAt isWord rest) :
    occurrencesAfter before name (t.spelling ++ rest) =
      occurrencesAfter (wordAfter before t.spelling) name rest +
        if t.isNamed name then 1 else 0 := by
  have hbare (h : Piece.isBare before t.spelling = true) :
      occurrencesAfter before name (t.spelling ++ rest) =
        occurrencesAfter (wordAfter before t.spelling) name rest := by
    rw [occurrencesAfter, identifiersAfter_bare h, occurrencesAfter]
  cases t with
  | name w =>
    obtain ⟨c, cs, rfl, hstart, hcs⟩ := ht
    have hword : ∀ d ∈ cs, isWord d = true := fun d hd => isWord_of_isNameChar (hcs d hd)
    have hend : wordAfter before (c :: cs) = true := by
      rw [wordAfter_cons]
      exact wordAfter_of_forall hword (.inl (isWord_of_isNameStart hstart))
    have hfresh : before = false := by
      refine Bool.eq_false_iff.mpr fun hbefore' => ?_
      rw [Piece.isNameStart_of_stopsAt (hbefore hbefore')] at hstart
      cases hstart
    subst hfresh
    rw [spelling, occurrencesAfter, identifiersAfter_word hstart hword (hrest hend),
      List.countP_cons, hend, occurrencesAfter]
    rfl
  | text content =>
    have hquote : '"' ∉ content := fun hmem => Bool.false_ne_true (ht '"' hmem)
    have hend : wordAfter before ('"' :: content ++ ['"']) = false := by
      rw [wordAfter_append]
      rfl
    rw [spelling, occurrencesAfter, hend, List.append_assoc, List.cons_append,
      List.singleton_append, identifiersAfter_quoted hquote]
    rfl
  | number x =>
    cases hexposed : x.exposed? with
    | none => exact hbare (Piece.isBare_numeral ht (Numeral.power_of_not_exposed hexposed) before)
    | some p => exact occurrencesAfter_exposed ht hexposed hname hrest
  | operator op => exact hbare (by cases op <;> cases before <;> decide)
  | bang | lparen | rparen => exact hbare (by cases before <;> decide)

end Spelling

end Token

section Tokens

variable {name cs : List Char} {ts : List Token}

/-- What follows a token starts a word only if the next token does. -/
theorem stopsAt_of_tokens? (h : tokens? cs = some ts)
    (hhead : ∀ t, ts.head? = some t → StopsAt isWord t.spelling) : StopsAt isWord cs := by
  cases cs with
  | nil => exact fun _ hc => by cases hc
  | cons c cs =>
    refine stopsAt_cons ?_
    rw [tokens?] at h
    split at h
    · next hspace =>
      simp only [isSpace, Bool.or_eq_true, beq_iff_eq] at hspace
      rcases hspace with (((rfl | rfl) | rfl) | rfl) | rfl <;> decide
    · split at h
      · next t rest hscan =>
        obtain ⟨us, -, rfl⟩ := Option.map_eq_some_iff.mp h
        obtain ⟨happend, hne⟩ := Token.spelling_append_of_scan? hscan
        obtain ⟨d, ds, hds⟩ := List.exists_cons_of_ne_nil hne
        rw [hds] at happend
        obtain rfl := (List.cons.inj happend).1
        exact hhead t rfl d (by rw [hds]; rfl)
      · cases h

/-- Where no word goes on from token to token, the occurrences of a name in a text are those
among its tokens. -/
theorem occurrencesAfter_of_tokens? (hname : name.head? ≠ some 'E') (h : tokens? cs = some ts)
    (hts : ts.IsChain Token.Apart) {before : Bool} (hbefore : before = true → StopsAt isWord cs) :
    occurrencesAfter before name cs = ts.countP (Token.isNamed name) := by
  fun_induction tokens? cs generalizing ts before with
  | case1 =>
    cases h
    rw [occurrencesAfter, identifiersAfter_nil]
    rfl
  | case2 c cs hspace ih =>
    have hplain : c ≠ '"' ∧ isNameStart c = false ∧ isWord c = false := by
      simp only [isSpace, Bool.or_eq_true, beq_iff_eq] at hspace
      rcases hspace with (((rfl | rfl) | rfl) | rfl) | rfl <;> decide
    obtain ⟨hquote, hstart, hword⟩ := hplain
    rw [occurrencesAfter, identifiersAfter_other hquote (.inr hstart), hword]
    exact ih h hts (by simp)
  | case3 c cs _ t rest hscan ih =>
    obtain ⟨us, hus, rfl⟩ := Option.map_eq_some_iff.mp h
    obtain ⟨happend, hne⟩ := Token.spelling_append_of_scan? hscan
    rw [← happend] at hbefore ⊢
    have hfront : before = true → StopsAt isWord t.spelling := by
      obtain ⟨d, ds, hds⟩ := List.exists_cons_of_ne_nil hne
      rw [hds] at hbefore ⊢
      exact fun h' => stopsAt_cons (hbefore h' d rfl)
    have hrest : wordAfter before t.spelling = true → StopsAt isWord rest := by
      intro hword
      refine stopsAt_of_tokens? hus fun t' ht' => ?_
      obtain ⟨us, rfl⟩ := List.head?_eq_some_iff.mp ht'
      exact (List.isChain_cons_cons.mp hts).1 before hword
    rw [Token.occurrencesAfter_spelling (Token.isSpelled_of_scan? hscan) hname hfront hrest,
      ih hus hts.tail hrest, List.countP_cons]
  | case4 => cases h

/-- The occurrences of a name in the text of an expression are those among its tokens. -/
theorem Expr.Derives.occurrences {level : Level} {e : Expr} (h : Derives level ts e)
    (hts : tokens? cs = some ts) (hname : name.head? ≠ some 'E') :
    occurrences name cs = ts.countP (Token.isNamed name) :=
  occurrencesAfter_of_tokens? hname hts (h.isChain_meets.imp fun _ _ => Token.Meets.apart) (by simp)

/-- A token stands in a text outside the literals, but for the content of a literal. -/
theorem infix_outside_of_tokens? (h : tokens? cs = some ts) {t : Token} (ht : t ∈ ts) :
    outside false t.spelling <:+: outside false cs := by
  fun_induction tokens? cs generalizing ts with
  | case1 =>
    cases h
    cases ht
  | case2 c cs hspace ih =>
    have hquote : c ≠ '"' := by
      rintro rfl
      cases hspace
    rw [outside_cons_of_ne hquote]
    exact List.infix_cons (ih h ht)
  | case3 c cs _ u rest hscan ih =>
    obtain ⟨us, hus, rfl⟩ := Option.map_eq_some_iff.mp h
    rw [← (Token.spelling_append_of_scan? hscan).1, outside_append,
      (parenDepth_spelling (Token.isSpelled_of_scan? hscan)).2]
    rcases List.mem_cons.mp ht with rfl | ht
    · exact (List.prefix_append _ _).isInfix
    · exact (ih hus ht).trans (List.suffix_append _ _).isInfix
  | case4 => cases h

end Tokens

end LineBasic
