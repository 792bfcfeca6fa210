import LineBasic.Proofs.Pieces
import LineBasic.Proofs.SplitConditions

/-!
What substitution leaves of a text. The literals of a text are what stands between one quote
and the next, and its identifiers are the runs of word characters outside its literals that
start like a name. In a text whose literals are all closed the pieces are just these and single
characters. Every literal stays, and of the identifiers exactly those stay that are neither
bound nor a logical word. What is put in their place holds no identifier, so the second
substitution changes nothing.

The literal text of an argument of PRINT is made of the same pieces: the quotes are removed
from its literals, and its identifiers are filled in, or left out if they are not bound.
-/

namespace LineBasic

namespace Text

def everySecond {α : Type} : List α → List α
  | _ :: x :: xs => x :: everySecond xs
  | _ => []

def literals (cs : List Char) : List (List Char) := everySecond (cs.splitOnP (· == '"'))

/-- The runs of word characters outside the literals of a text. -/
def runs (cs : List Char) : List (List Char) := (outside false cs).splitOnP fun c => !isWord c

/-- The identifiers of a text, if a word may go on in front of it: the runs that start like a
name, without the one that goes on. -/
def identifiersAfter (afterWord : Bool) (cs : List Char) : List (List Char) :=
  (if afterWord then (runs cs).tail else runs cs).filter fun w => w.head?.any isNameStart

def identifiers (cs : List Char) : List (List Char) := identifiersAfter false cs

structure IsIdentifierAt (before w after : List Char) : Prop where
  outside : quotedAfter false before = false
  alone : wordAfter false before = false
  start : w.head?.any isNameStart = true
  word : ∀ c ∈ w, isWord c = true
  stops : StopsAt isWord after

structure IsPlainAt (before w after : List Char) : Prop where
  outside : quotedAfter false before = false
  bare : Piece.isBare (wordAfter false before) w = true
  begins : StopsAt isWord (w ++ after) ∨ wordAfter false before = false
  ends : StopsAt isWord after ∨ wordAfter false (before ++ w) = false

section Literals

variable {c : Char} {cs w content rest : List Char}

theorem everySecond_modifyHead {α : Type} (f : α → α) (xs : List α) :
    everySecond (xs.modifyHead f) = everySecond xs := by
  cases xs with
  | nil => rfl
  | cons x xs =>
    cases xs with
    | nil => rfl
    | cons y ys => rfl

theorem literals_append_of_notMem (h : '"' ∉ w) (rest : List Char) :
    literals (w ++ rest) = literals rest := by
  induction w with
  | nil => rfl
  | cons c w ih =>
    obtain ⟨hc, hw⟩ := List.ne_and_not_mem_of_not_mem_cons h
    have hne : ¬ ((c == '"') = true) := by simpa using Ne.symm hc
    rw [← ih hw, literals, literals, List.cons_append, List.splitOnP_cons_eq_if_modifyHead,
      if_neg hne, everySecond_modifyHead]

theorem literals_quoted (h : '"' ∉ content) (rest : List Char) :
    literals ('"' :: (content ++ '"' :: rest)) = content :: literals rest := by
  have hcontent : ∀ c ∈ content, (c == '"') = false := by
    intro c hc
    refine beq_eq_false_iff_ne.mpr ?_
    rintro rfl
    exact h hc
  rw [literals, List.splitOnP_cons_eq_if_modifyHead, if_pos (by decide),
    List.splitOnP_append_cons content rest (by decide), List.splitOnP_eq_singleton hcontent]
  rfl

/-- Inside a literal a character belongs to its content. -/
theorem literals_quote_cons (h : c ≠ '"') (cs : List Char) :
    literals ('"' :: c :: cs) = (literals ('"' :: cs)).modifyHead (c :: ·) := by
  obtain ⟨first, others, hsplit⟩ :=
    List.exists_cons_of_ne_nil (List.splitOnP_ne_nil (· == '"') cs)
  have hne : ¬ ((c == '"') = true) := by simpa using h
  simp only [literals, List.splitOnP_cons_eq_if_modifyHead, hsplit, if_neg hne]
  rfl

end Literals

section Identifiers

variable {afterWord : Bool} {c : Char} {cs w content rest : List Char}

theorem outside_quoted (h : '"' ∉ content) (rest : List Char) :
    outside false ('"' :: (content ++ '"' :: rest)) = '"' :: '"' :: outside false rest := by
  have hinside : outside true (content ++ '"' :: rest) = '"' :: outside false rest := by
    induction content with
    | nil => rfl
    | cons c content ih =>
      obtain ⟨hc, hcontent⟩ := List.ne_and_not_mem_of_not_mem_cons h
      rw [List.cons_append, outside, if_pos ⟨rfl, Ne.symm hc⟩, ih hcontent]
  rw [outside, if_neg (by simp), turn_quote, Bool.not_false, hinside]

theorem runs_cons (h : c ≠ '"') (cs : List Char) : runs (c :: cs) =
    if isWord c then (runs cs).modifyHead (c :: ·) else [] :: runs cs := by
  rw [runs, outside_cons_of_ne h, List.splitOnP_cons_eq_if_modifyHead]
  cases isWord c <;> rfl

theorem runs_quoted (h : '"' ∉ content) (rest : List Char) :
    runs ('"' :: (content ++ '"' :: rest)) = [] :: [] :: runs rest := by
  have hquote : isWord '"' = false := by decide
  simp [runs, outside_quoted h, List.splitOnP_cons_eq_if_modifyHead, hquote]

theorem runs_of_stopsAt (h : StopsAt isWord cs) : runs cs = [] :: (runs cs).tail := by
  have hhead := head?_splitOnP (fun c => !isWord c) (outside false cs)
  simp only [Bool.not_not, takeWhile_of_stopsAt (stopsAt_outside h)] at hhead
  exact (List.cons_head?_tail hhead).symm

/-- A word stands first among the runs, and no run goes on behind it. -/
theorem runs_word (hw : ∀ c ∈ w, isWord c = true) (hrest : StopsAt isWord rest) :
    runs (w ++ rest) = w :: (runs rest).tail := by
  induction w with
  | nil => exact runs_of_stopsAt hrest
  | cons c w ih =>
    have hc : isWord c = true := hw c List.mem_cons_self
    have hquote : c ≠ '"' := by
      rintro rfl
      cases hc
    rw [List.cons_append, runs_cons hquote, if_pos hc,
      ih fun d hd => hw d (List.mem_cons_of_mem c hd)]
    rfl

theorem identifiersAfter_nil (afterWord : Bool) : identifiersAfter afterWord [] = [] := by
  cases afterWord <;> rfl

theorem identifiersAfter_quoted (h : '"' ∉ content) (afterWord : Bool) (rest : List Char) :
    identifiersAfter afterWord ('"' :: (content ++ '"' :: rest)) = identifiersAfter false rest := by
  cases afterWord <;> simp [identifiersAfter, runs_quoted h]

theorem identifiersAfter_word (hstart : isNameStart c = true) (hw : ∀ d ∈ w, isWord d = true)
    (hrest : StopsAt isWord rest) : identifiersAfter false (c :: w ++ rest) =
      (c :: w) :: identifiersAfter true rest := by
  have hword : ∀ d ∈ c :: w, isWord d = true := by
    intro d hd
    rcases List.mem_cons.mp hd with rfl | hd
    · exact isWord_of_isNameStart hstart
    · exact hw d hd
  rw [identifiersAfter, runs_word hword hrest]
  simp [identifiersAfter, hstart]

theorem identifiersAfter_other (hquote : c ≠ '"') (h : afterWord = true ∨ isNameStart c = false)
    (cs : List Char) :
    identifiersAfter afterWord (c :: cs) = identifiersAfter (isWord c) cs := by
  cases hc : isWord c with
  | false => cases afterWord <;> simp [identifiersAfter, runs_cons hquote, hc]
  | true =>
    obtain ⟨run, rest, hruns⟩ : ∃ run rest, runs cs = run :: rest :=
      List.exists_cons_of_ne_nil (List.splitOnP_ne_nil _ _)
    rcases h with rfl | hstart
    · simp [identifiersAfter, runs_cons hquote, hc, hruns]
    · cases afterWord <;> simp [identifiersAfter, runs_cons hquote, hc, hruns, hstart]

end Identifiers

end Text

namespace Piece

open Text

def identifier? : Piece → Option (List Char)
  | .word cs => some cs
  | _ => none

def literal? : Piece → Option (List Char)
  | .quoted content => some content
  | _ => none

inductive Cuts : Bool → List Char → List Piece → Prop
  | nil (afterWord : Bool) : Cuts afterWord [] []
  | quoted (afterWord : Bool) {content rest : List Char} {ps : List Piece}
      (hcontent : '"' ∉ content) (hrest : Cuts false rest ps) :
      Cuts afterWord ('"' :: (content ++ '"' :: rest)) (.quoted content :: ps)
  | word {c : Char} {cs rest : List Char} {ps : List Piece} (hstart : isNameStart c = true)
      (hcs : ∀ d ∈ cs, isWord d = true) (hstops : StopsAt isWord rest)
      (hrest : Cuts true rest ps) : Cuts false (c :: cs ++ rest) (.word (c :: cs) :: ps)
  | other {afterWord : Bool} {c : Char} {cs : List Char} {ps : List Piece} (hquote : c ≠ '"')
      (hstart : afterWord = true ∨ isNameStart c = false) (hrest : Cuts (isWord c) cs ps) :
      Cuts afterWord (c :: cs) (.other c :: ps)

section Cuts

variable {afterWord : Bool} {cs rest before : List Char} {ps qs : List Piece}

theorem cuts_cut (h : quotedAfter false cs = false) (afterWord : Bool) :
    Cuts afterWord cs (cut afterWord cs) := by
  fun_induction cut afterWord cs with
  | case1 afterWord => exact .nil afterWord
  | case2 afterWord cs mark rest hrest ih =>
    obtain rfl := Shape.eq_quote_of_dropWhile hrest
    have hcs := List.takeWhile_append_dropWhile (p := isInsideQuotes) (l := cs)
    have hcontent := Shape.notMem_takeWhile cs
    rw [hrest] at hcs
    generalize cs.takeWhile isInsideQuotes = content at hcs hcontent
    subst hcs
    refine .quoted afterWord hcontent (ih ?_)
    simpa [quotedAfter_append, quotedAfter_of_notMem hcontent] using h
  | case3 afterWord cs hnone ih =>
    rw [quotedAfter_cons, turn_quote, quotedAfter_of_notMem (notMem_of_dropWhile hnone)] at h
    cases h
  | case4 afterWord c cs hquote hword ih =>
    obtain ⟨hfresh, hstart⟩ : afterWord = false ∧ isNameStart c = true := by simpa using hword
    subst hfresh
    have hcs := List.takeWhile_append_dropWhile (p := isWord) (l := cs)
    have hrun : ∀ d ∈ cs.takeWhile isWord, isWord d = true := fun d hd => mem_takeWhile hd
    have hbalanced : quotedAfter false (cs.dropWhile isWord) = false := by
      rw [quotedAfter_cons, turn_of_ne hquote, ← hcs, quotedAfter_append,
        quotedAfter_of_forall (by decide) hrun] at h
      exact h
    have hcuts := Cuts.word hstart hrun (stopsAt_dropWhile isWord cs) (ih hbalanced)
    rwa [List.cons_append, hcs] at hcuts
  | case5 afterWord c cs hquote hword ih =>
    rw [quotedAfter_cons, turn_of_ne hquote] at h
    have hstart : afterWord = true ∨ isNameStart c = false := by
      cases afterWord with
      | true => exact .inl rfl
      | false => exact .inr (by simpa using hword)
    exact .other hquote hstart (ih h)

theorem Cuts.eq_cut (h : Cuts afterWord cs ps) : cut afterWord cs = ps := by
  induction h with
  | nil afterWord => exact cut_nil afterWord
  | quoted afterWord hcontent _ ih =>
    rw [cut_quoted (isInsideQuotes_of_notMem hcontent), ih]
  | word hstart hcs hstops _ ih => rw [cut_word hstart hcs hstops, ih]
  | @other afterWord c cs _ hquote hstart _ ih =>
    have hbare : isBare afterWord [c] = true := isBare_cons.mpr ⟨⟨hquote, hstart⟩, rfl⟩
    have hcut := cut_bare hbare cs
    rw [wordAfter_cons, wordAfter_nil, ih] at hcut
    exact hcut

/-- The words among the pieces are the identifiers of the text. -/
theorem Cuts.identifiersAfter (h : Cuts afterWord cs ps) :
    identifiersAfter afterWord cs = ps.filterMap identifier? := by
  induction h with
  | nil afterWord => exact identifiersAfter_nil afterWord
  | quoted afterWord hcontent _ ih => rw [identifiersAfter_quoted hcontent, ih]; rfl
  | word hstart hcs hstops _ ih => rw [identifiersAfter_word hstart hcs hstops, ih]; rfl
  | other hquote hstart _ ih => rw [identifiersAfter_other hquote hstart, ih]; rfl

/-- The literals among the pieces are those of the text. -/
theorem Cuts.literals (h : Cuts afterWord cs ps) : literals cs = ps.filterMap literal? := by
  induction h with
  | nil => rfl
  | quoted _ hcontent _ ih => rw [literals_quoted hcontent, ih]; rfl
  | @word c cs rest _ hstart hcs _ _ ih =>
    have hquote : '"' ∉ c :: cs := by
      intro hmem
      rcases List.mem_cons.mp hmem with rfl | hmem
      · cases hstart
      · cases hcs _ hmem
    rw [literals_append_of_notMem hquote, ih]
    rfl
  | @other _ c cs _ hquote _ _ ih =>
    have hmem : '"' ∉ [c] := fun h => hquote (List.mem_singleton.mp h).symm
    rw [← List.singleton_append, literals_append_of_notMem hmem, ih]
    rfl

/-- Where no word goes on, none starts. -/
theorem isNameStart_of_stopsAt {c : Char} (h : StopsAt isWord (c :: cs)) :
    isNameStart c = false := by
  refine Bool.eq_false_iff.mpr fun hstart => ?_
  have hword := isWord_of_isNameStart hstart
  rw [h c rfl] at hword
  cases hword

/-- Where no word goes on, it does not matter what stands before. -/
theorem Cuts.congr (h : Cuts afterWord cs ps) (hstops : StopsAt isWord cs) (before : Bool) :
    Cuts before cs ps := by
  cases h with
  | nil => exact .nil before
  | quoted _ hcontent hrest => exact .quoted before hcontent hrest
  | word hstart _ _ _ =>
    rw [isNameStart_of_stopsAt hstops] at hstart
    cases hstart
  | other hquote _ hrest => exact .other hquote (.inr (isNameStart_of_stopsAt hstops)) hrest

theorem wordAfter_quoted (afterWord : Bool) (content rest : List Char) :
    wordAfter afterWord ('"' :: (content ++ '"' :: rest)) = wordAfter false rest := by
  have hquote : isWord '"' = false := by decide
  rw [wordAfter_cons, wordAfter_append, wordAfter_cons, hquote]

/-- Two parts of a text are cut apart unless a word goes on from one to the other. -/
theorem Cuts.append (h : Cuts afterWord before ps)
    (hrest : Cuts (wordAfter afterWord before) rest qs)
    (hedge : StopsAt isWord rest ∨ wordAfter afterWord before = false) :
    Cuts afterWord (before ++ rest) (ps ++ qs) := by
  induction h with
  | nil afterWord => exact hrest
  | @quoted afterWord content tail _ hcontent _ ih =>
    rw [wordAfter_quoted] at hrest hedge
    have hcuts := Cuts.quoted afterWord hcontent (ih hrest hedge)
    simpa using hcuts
  | @word c cs tail _ hstart hcs hstops _ ih =>
    have hword : wordAfter false (c :: cs ++ tail) = wordAfter true tail := by
      have hc : isWord c = true := isWord_of_isNameStart hstart
      rw [wordAfter_append, wordAfter_cons, wordAfter_of_forall hcs (.inl hc)]
    rw [hword] at hrest hedge
    have hbehind : StopsAt isWord (tail ++ rest) := by
      cases tail with
      | nil => exact hedge.resolve_right (by simp)
      | cons d tail => exact stopsAt_cons (hstops d rfl)
    have hcuts := Cuts.word hstart hcs hbehind (ih hrest hedge)
    simpa using hcuts
  | other hquote hstart _ ih => exact .other hquote hstart (ih hrest hedge)

theorem cuts_bare (h : isBare afterWord cs = true) : Cuts afterWord cs (cs.map other) := by
  induction cs generalizing afterWord with
  | nil => exact .nil afterWord
  | cons c cs ih =>
    obtain ⟨⟨hquote, hstart⟩, hcs⟩ := isBare_cons.mp h
    exact .other hquote hstart (ih hcs)

end Cuts

section Parts

variable {before content w after : List Char}

/-- A literal is a piece between the pieces before it and behind it. -/
theorem ofText_literal (hbefore : quotedAfter false before = false) (hcontent : '"' ∉ content)
    (hafter : quotedAfter false after = false) :
    ofText (before ++ '"' :: (content ++ '"' :: after)) =
      ofText before ++ .quoted content :: ofText after := by
  have hrest := Cuts.quoted (wordAfter false before) hcontent (cuts_cut hafter false)
  exact ((cuts_cut hbefore false).append hrest (.inl (stopsAt_cons (by decide)))).eq_cut

/-- So is an identifier. -/
theorem ofText_identifier (h : IsIdentifierAt before w after)
    (hafter : quotedAfter false after = false) :
    ofText (before ++ (w ++ after)) = ofText before ++ .word w :: ofText after := by
  cases w with
  | nil => cases h.start
  | cons c w =>
    have hcs : ∀ d ∈ w, isWord d = true := fun d hd => h.word d (List.mem_cons_of_mem c hd)
    have hrest : Cuts (wordAfter false before) (c :: w ++ after)
        (.word (c :: w) :: cut false after) := by
      rw [h.alone]
      exact .word h.start hcs h.stops ((cuts_cut hafter false).congr h.stops true)
    exact ((cuts_cut h.outside false).append hrest (.inr h.alone)).eq_cut

/-- The characters of a plain part are pieces by themselves. -/
theorem ofText_plain (h : IsPlainAt before w after) (hafter : quotedAfter false after = false) :
    ofText (before ++ (w ++ after)) = ofText before ++ (w.map other ++ ofText after) := by
  have hword : wordAfter (wordAfter false before) w = wordAfter false (before ++ w) :=
    (wordAfter_append false before w).symm
  have hbehind : Cuts (wordAfter (wordAfter false before) w) after (cut false after) := by
    rcases h.ends with hstops | hends
    · exact (cuts_cut hafter false).congr hstops _
    · rw [hword, hends]
      exact cuts_cut hafter false
  have hrest := (cuts_bare h.bare).append hbehind (hword ▸ h.ends)
  exact ((cuts_cut h.outside false).append hrest h.begins).eq_cut

end Parts

end Piece

section Literals

open Binary64 Piece

variable {x : Float} {m : Nat} {e : Int}

theorem isBare_powerText (e : Int) : isBare true (powerText e) = true := by
  obtain ⟨p, hp, hspelling, _⟩ := exists_power e
  rw [← hspelling]
  exact isBare_power hp

theorem isBare_cons_digit {d : Char} (hd : Text.isDigit d = true) (afterWord : Bool)
    (cs : List Char) : isBare afterWord (d :: cs) = isBare true cs := by
  have hplain : isBare afterWord [d] = true :=
    isBare_digits (List.forall_mem_singleton.mpr hd) afterWord
  rw [← List.singleton_append, isBare_append, hplain, Text.wordAfter_cons,
    Text.isWord_of_isDigit hd]
  rfl

/-- Before the power of ten there stands a digit. -/
theorem isBare_scientific {d : Char} {ds : List Char} (hds : ∀ c ∈ d :: ds, Text.isDigit c = true)
    (afterWord : Bool) (e : Int) :
    isBare afterWord ((match d :: ds with
      | [] => []
      | [d] => [d]
      | d :: ds => d :: '.' :: ds) ++ powerText e) = true := by
  have hd := hds d List.mem_cons_self
  cases ds with
  | nil =>
    rw [List.singleton_append, isBare_cons_digit hd]
    exact isBare_powerText e
  | cons d' ds =>
    have hds' : ∀ c ∈ d' :: ds, Text.isDigit c = true :=
      fun c hc => hds c (List.mem_cons_of_mem d hc)
    have hword : ∀ c ∈ d' :: ds, Text.isWord c = true :=
      fun c hc => Text.isWord_of_isDigit (hds' c hc)
    rw [List.cons_append, isBare_cons_digit hd, List.cons_append]
    refine isBare_cons.mpr ⟨⟨by decide, .inl rfl⟩, ?_⟩
    rw [isBare_append, isBare_digits hds', Bool.true_and,
      Text.wordAfter_of_forall hword (.inr (List.cons_ne_nil d' ds))]
    exact isBare_powerText e

theorem isBare_toText {x : Decimal} (h : x.coefficient ≠ 0) (afterWord : Bool) :
    isBare afterWord x.toText = true := by
  have hne := Decimal.significantDigits_ne_nil h
  have hds : ∀ c ∈ x.significantDigits, Text.isDigit c = true :=
    fun c hc => Decimal.isDigit_of_mem_significantDigits hc
  have hplain (c : Char) (hc : Text.isDigit c = true ∨ c = '.') :
      c ≠ '"' ∧ isNameStart c = false := by
    rcases hc with hc | rfl
    · exact ⟨ne_of_isDigit hc (by decide), isNameStart_of_isDigit hc⟩
    · decide
  unfold Decimal.toText
  simp only
  generalize x.significantDigits = ds at hne hds
  split
  · refine isBare_of_forall (fun c hc => hplain c ?_) afterWord
    split at hc
    · simp only [List.mem_append, List.mem_cons] at hc
      rcases hc with (rfl | rfl | hc) | hc
      · exact .inl (by decide)
      · exact .inr rfl
      · exact .inl (isDigit_of_mem_zeros hc)
      · exact .inl (hds c hc)
    · split at hc
      · simp only [List.mem_append, List.mem_cons] at hc
        rcases hc with hc | rfl | hc
        · exact .inl (hds c (List.mem_of_mem_take hc))
        · exact .inr rfl
        · exact .inl (hds c (List.mem_of_mem_drop hc))
      · rcases List.mem_append.mp hc with hc | hc
        · exact .inl (hds c hc)
        · exact .inl (isDigit_of_mem_zeros hc)
  · cases ds with
    | nil => exact absurd rfl hne
    | cons d ds => exact isBare_scientific hds afterWord _

theorem isBare_magnitudeText (hfinite : IsFinite m e) (afterWord : Bool) :
    isBare afterWord (magnitudeText m e) = true := by
  have hdigits (n : Nat) : isBare afterWord (natDigits n) = true :=
    isBare_digits (fun c hc => isDigit_of_mem_natDigits hc) afterWord
  rcases Nat.eq_zero_or_pos m with rfl | hpos
  · rw [magnitudeText_zero]
    exact hdigits 0
  · have htext := isBare_toText (coefficient_shortest_ne_zero hfinite hpos) afterWord
    unfold magnitudeText
    split
    · split
      · exact hdigits _
      · exact htext
    · exact htext

/-- The literal of a number holds no word. -/
theorem isBare_literal (h : decode x ≠ .nan) : isBare false (Value.number x).literal = true := by
  rw [Value.literal]
  cases hx : decode x with
  | nan => exact absurd hx h
  | infinite negative =>
    cases negative with
    | false => exact (by decide : isBare false "1e999".toList = true)
    | true => exact (by decide : isBare false "-1e999".toList = true)
  | finite negative m e =>
    have hmagnitude := isBare_magnitudeText (finite_of_decode hx).1
    simp only [numberText, hx]
    split
    · exact isBare_cons.mpr ⟨by decide, hmagnitude _⟩
    · exact hmagnitude false

end Literals

namespace Condition

open Text Piece

variable {env : Environment} {afterWord : Bool} {w cs : List Char} {ps ps' qs qs' : List Piece}

/-- Whether substitution leaves a word as it is: it is not bound and no logical word. -/
def leaves (env : Environment) (w : List Char) : Bool :=
  (env.get? (String.ofList w)).isNone && (logicalWord? (upperString (String.ofList w))).isNone

structure Settles (env : Environment) (ps qs : List Piece) : Prop where
  substituted : qs.flatMap (substitutePiece env) = ps.flatMap (substitutePiece env)
  identifiers : qs.filterMap identifier? = (ps.filterMap identifier?).filter (leaves env)
  literals : (ps.filterMap literal?).Sublist (qs.filterMap literal?)

theorem Settles.append (h : Settles env ps qs) (h' : Settles env ps' qs') :
    Settles env (ps ++ ps') (qs ++ qs') where
  substituted := by rw [List.flatMap_append, List.flatMap_append, h.substituted, h'.substituted]
  identifiers := by
    rw [List.filterMap_append, List.filterMap_append, List.filter_append, h.identifiers,
      h'.identifiers]
  literals := by
    rw [List.filterMap_append, List.filterMap_append]
    exact h.literals.append h'.literals

/-- What is no word stays. -/
theorem Settles.refl {p : Piece} (h : identifier? p = none) : Settles env [p] [p] where
  substituted := rfl
  identifiers := by simp [h]
  literals := List.Sublist.refl _

theorem substitutePiece_bound {v : Value} (h : env.get? (String.ofList w) = some v) :
    substitutePiece env (.word w) = v.literal := by
  rw [substitutePiece, h]

theorem substitutePiece_logical {op : String} (h : env.get? (String.ofList w) = none)
    (hop : logicalWord? (upperString (String.ofList w)) = some op) :
    substitutePiece env (.word w) = op.toList := by
  simp only [substitutePiece, h, hop, Option.map_some, Option.getD_some]

theorem substitutePiece_free (h : env.get? (String.ofList w) = none)
    (hop : logicalWord? (upperString (String.ofList w)) = none) :
    substitutePiece env (.word w) = w := by
  simp only [substitutePiece, h, hop, Option.map_none, Option.getD_none]

/-- A word is replaced by single characters. -/
theorem Settles.of_bare {cs : List Char} (hsub : substitutePiece env (.word w) = cs)
    (hleaves : leaves env w = false) : Settles env [.word w] (cs.map other) where
  substituted := by rw [flatMap_others, List.flatMap_singleton, hsub]
  identifiers := by simp [identifier?, hleaves]
  literals := List.nil_sublist _

/-- A word that does not stay is replaced by a literal or by single characters. -/
theorem settles_word (henv : ∀ name v, env.get? name = some v → v.IsWritable)
    (hw : Cuts false w [.word w]) :
    ∃ qs, Cuts false (substitutePiece env (.word w)) qs ∧ Settles env [.word w] qs := by
  cases hv : env.get? (String.ofList w) with
  | some v =>
    have hsub := substitutePiece_bound hv
    have hleaves : leaves env w = false := by simp [leaves, hv]
    cases v with
    | number x =>
      have hbare := isBare_literal (henv _ _ hv)
      rw [hsub]
      exact ⟨_, cuts_bare hbare, .of_bare hsub hleaves⟩
    | text s =>
      refine ⟨[.quoted s.toList], ?_, ?_, ?_, List.nil_sublist _⟩
      · rw [hsub]
        exact .quoted false (henv _ _ hv) (.nil false)
      · rw [List.flatMap_singleton, List.flatMap_singleton, hsub]
        rfl
      · simp [identifier?, hleaves]
  | none =>
    cases hop : logicalWord? (upperString (String.ofList w)) with
    | some op =>
      have hsub := substitutePiece_logical hv hop
      have hbare : isBare false op.toList = true := by
        rcases logicalWord?_cases hop with rfl | rfl | rfl <;> decide
      rw [hsub]
      exact ⟨_, cuts_bare hbare, .of_bare hsub (by simp [leaves, hop])⟩
    | none =>
      rw [substitutePiece_free hv hop]
      refine ⟨_, hw, rfl, ?_, List.Sublist.refl _⟩
      simp [identifier?, leaves, hv, hop]

/-- Where no word goes on, none does behind the substitution. -/
theorem stopsAt_flatMap (env : Environment) (h : Cuts true cs ps) (hstops : StopsAt isWord cs) :
    StopsAt isWord (ps.flatMap (substitutePiece env)) := by
  cases h with
  | nil => exact hstops
  | quoted => exact stopsAt_cons (by decide)
  | other => exact stopsAt_cons (hstops _ rfl)

/-- The substitution of a text is cut into pieces that it leaves as they are. -/
theorem settles_cuts (henv : ∀ name v, env.get? name = some v → v.IsWritable)
    (h : Cuts afterWord cs ps) :
    ∃ qs, Cuts afterWord (ps.flatMap (substitutePiece env)) qs ∧ Settles env ps qs := by
  induction h with
  | nil afterWord => exact ⟨[], .nil afterWord, rfl, rfl, List.Sublist.refl []⟩
  | quoted afterWord hcontent hrest ih =>
    obtain ⟨qs, hcuts, hsettles⟩ := ih
    refine ⟨_, ?_, (Settles.refl rfl).append hsettles⟩
    simpa [substitutePiece, Piece.spelling] using Cuts.quoted afterWord hcontent hcuts
  | word hstart hcs hstops hrest ih =>
    -- The literal may end without a word character where the word did not. Nothing that goes on
    -- follows, so the rest is cut as it was behind the word.
    obtain ⟨qs, hcuts, hsettles⟩ := ih
    have hself := Cuts.word hstart hcs (atBreak_nil.stopsAt (by decide)) (.nil true)
    rw [List.append_nil] at hself
    obtain ⟨ws, hword, hsettled⟩ := settles_word henv hself
    have hstop := stopsAt_flatMap env hrest hstops
    exact ⟨_, hword.append (hcuts.congr hstop _) (.inl hstop), hsettled.append hsettles⟩
  | other hquote hstart hrest ih =>
    obtain ⟨qs, hcuts, hsettles⟩ := ih
    exact ⟨_, Cuts.other hquote hstart hcuts, (Settles.refl rfl).append hsettles⟩

structure IsSettled (env : Environment) (cs out : List Char) : Prop where
  literals : (literals cs).Sublist (literals out)
  literal_at : ∀ before content after, cs = before ++ '"' :: (content ++ '"' :: after) →
    quotedAfter false before = false → '"' ∉ content →
      out = substitute env before ++ '"' :: (content ++ '"' :: substitute env after)
  bound_at : ∀ before w after v, cs = before ++ (w ++ after) → IsIdentifierAt before w after →
    env.get? (String.ofList w) = some v →
      out = substitute env before ++ (v.literal ++ substitute env after)
  logical_at : ∀ before w after op, cs = before ++ (w ++ after) → IsIdentifierAt before w after →
    env.get? (String.ofList w) = none →
      logicalWord? (upperString (String.ofList w)) = some op →
      out = substitute env before ++ (op.toList ++ substitute env after)
  free_at : ∀ before w after, cs = before ++ (w ++ after) → IsIdentifierAt before w after →
    env.get? (String.ofList w) = none →
      logicalWord? (upperString (String.ofList w)) = none →
      out = substitute env before ++ (w ++ substitute env after)
  identifiers : identifiers out = (identifiers cs).filter (leaves env)
  again : substitute env out = out

theorem substitute_of_cuts (env : Environment) (h : Cuts false cs ps) :
    substitute env cs = ps.flatMap (substitutePiece env) := by
  rw [substitute, Piece.ofText, h.eq_cut]

/-- A literal is passed over. -/
theorem substitute_literal (env : Environment) {before content after : List Char}
    (hbefore : quotedAfter false before = false) (hcontent : '"' ∉ content)
    (hafter : quotedAfter false after = false) :
    substitute env (before ++ '"' :: (content ++ '"' :: after)) =
      substitute env before ++ '"' :: (content ++ '"' :: substitute env after) := by
  rw [substitute, ofText_literal hbefore hcontent hafter, List.flatMap_append, List.flatMap_cons]
  simp [substitute, substitutePiece, Piece.spelling]

/-- An identifier is replaced as a whole. -/
theorem substitute_identifier (env : Environment) {before w after : List Char}
    (h : IsIdentifierAt before w after) (hafter : quotedAfter false after = false) :
    substitute env (before ++ (w ++ after)) =
      substitute env before ++ (substitutePiece env (.word w) ++ substitute env after) := by
  rw [substitute, ofText_identifier h hafter, List.flatMap_append, List.flatMap_cons]
  rfl

/-- Substitution keeps every literal, leaves no bound identifier and no logical word outside
literals, keeps every other identifier, and leaves nothing for a second time. -/
theorem isSettled_substitute (env : Environment) (cs : List Char)
    (henv : ∀ name v, env.get? name = some v → v.IsWritable) (h : quotedAfter false cs = false) :
    IsSettled env cs (substitute env cs) := by
  have hcuts := cuts_cut h false
  obtain ⟨qs, hout, hsettles⟩ := settles_cuts henv hcuts
  have hidentifier {before w after : List Char} (hcs : cs = before ++ (w ++ after))
      (hat : IsIdentifierAt before w after) : substitute env cs =
        substitute env before ++ (substitutePiece env (.word w) ++ substitute env after) := by
    have hw : quotedAfter false w = false := quotedAfter_of_forall (by decide) hat.word false
    have hafter : quotedAfter false after = false := by
      rwa [hcs, quotedAfter_append, hat.outside, quotedAfter_append, hw] at h
    rw [hcs, substitute_identifier env hat hafter]
  rw [← substitute_of_cuts env hcuts] at hout
  constructor
  case literals =>
    rw [hcuts.literals, hout.literals]
    exact hsettles.literals
  case literal_at =>
    intro before content after hcs hbefore hcontent
    have hafter : quotedAfter false after = false := by
      rw [hcs, quotedAfter_append, hbefore, quotedAfter_cons, quotedAfter_append,
        quotedAfter_of_notMem hcontent] at h
      exact h
    rw [hcs, substitute_literal env hbefore hcontent hafter]
  case bound_at =>
    intro before w after v hcs hat hv
    rw [hidentifier hcs hat, substitutePiece_bound hv]
  case logical_at =>
    intro before w after op hcs hat hv hop
    rw [hidentifier hcs hat, substitutePiece_logical hv hop]
  case free_at =>
    intro before w after hcs hat hv hop
    rw [hidentifier hcs hat, substitutePiece_free hv hop]
  case identifiers =>
    rw [identifiers, hout.identifiersAfter, hsettles.identifiers, ← hcuts.identifiersAfter]
    rfl
  case again =>
    rw [substitute_of_cuts env hout, hsettles.substituted, ← substitute_of_cuts env hcuts]

/-- The text of a variable is not looked into, not even for the name of that variable, and a
variable may have the name of a logical word. -/
theorem isSettled_substitute_at_namedInItself :
    IsSettled (.single "OR" (.text "or NOT a")) "NOT or = \"or\" AND or2".toList
        (substitute (.single "OR" (.text "or NOT a")) "NOT or = \"or\" AND or2".toList) ∧
      substitute (.single "OR" (.text "or NOT a")) "NOT or = \"or\" AND or2".toList =
        "! \"or NOT a\" = \"or\" && or2".toList := by
  refine ⟨isSettled_substitute _ _ ?_ (by decide), by decide +kernel⟩
  intro name v hv
  rw [Environment.get?_single] at hv
  split at hv
  · cases hv
    decide
  · cases hv

end Condition

namespace PrintItem

open Text Piece

variable (env : Environment) {before content w after : List Char}

/-- Of a literal the quotes are removed. -/
theorem literalText_literal (hbefore : quotedAfter false before = false)
    (hcontent : '"' ∉ content) (hafter : quotedAfter false after = false) :
    literalText env (before ++ '"' :: (content ++ '"' :: after)) =
      literalText env before ++ String.ofList content ++ literalText env after := by
  rw [literalText, Piece.ofText_literal hbefore hcontent hafter, List.flatMap_append, List.flatMap_cons,
    String.ofList_append, String.ofList_append, String.append_assoc]
  rfl

/-- An identifier is filled in, and left out if it is not bound. -/
theorem literalText_identifier (h : IsIdentifierAt before w after)
    (hafter : quotedAfter false after = false) :
    literalText env (before ++ (w ++ after)) =
      literalText env before ++ ((env.get? (String.ofList w)).map Value.display).getD "" ++
        literalText env after := by
  have hpiece : String.ofList (literalPiece env (.word w)) =
      ((env.get? (String.ofList w)).map Value.display).getD "" := by
    rw [literalPiece, String.ofList_toList, Environment.getD]
    cases env.get? (String.ofList w) <;> rfl
  rw [literalText, Piece.ofText_identifier h hafter, List.flatMap_append, List.flatMap_cons,
    String.ofList_append, String.ofList_append, hpiece, String.append_assoc]
  rfl

/-- All else stays as it is. -/
theorem literalText_plain (h : IsPlainAt before w after)
    (hafter : quotedAfter false after = false) :
    literalText env (before ++ (w ++ after)) =
      literalText env before ++ String.ofList w ++ literalText env after := by
  have hpieces : (w.map other).flatMap (literalPiece env) = w := by
    rw [List.flatMap_map]
    exact List.flatMap_singleton' w
  rw [literalText, Piece.ofText_plain h hafter, List.flatMap_append, List.flatMap_append, hpieces,
    String.ofList_append, String.ofList_append, String.append_assoc]
  rfl

example : literalText (.single "A" (.number 5)) "a kg - \"b\" 2a!".toList = "5  - b 2a!" := by
  decide +kernel

end PrintItem

end LineBasic
