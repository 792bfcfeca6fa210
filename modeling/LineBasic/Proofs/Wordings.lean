import LineBasic.Proofs.Effects
import LineBasic.Proofs.Trimming

/-!
Statements as they are written, and the commands that they are read as: an
assignment behind LET, the header of a loop, and NEXT.

An inner keyword of a header ends an expression where it stands as a word of
its own. `Text.HasWord` says that a word stands in a text, between blanks or at
the ends of the text, in any case.
-/

namespace LineBasic

namespace Text

def HasWord (word cs : List Char) : Prop := ∃ w ∈ cs.splitOnP isBlank, upper w = word

instance (word cs : List Char) : Decidable (HasWord word cs) :=
  inferInstanceAs (Decidable (∃ w ∈ cs.splitOnP isBlank, upper w = word))

section Classes

variable {c : Char}

set_option maxRecDepth 8000 in
theorem wordRange_disjoint_blankRange :
    ∀ r ∈ wordRanges, ∀ s ∈ blankRanges, r.2 < s.1 ∨ s.2 < r.1 := by
  have hranges : wordRanges.all (fun r =>
      blankRanges.all fun s => Nat.blt r.2 s.1 || Nat.blt s.2 r.1) = true := by
    decide +kernel
  intro r hr s hs
  have hapart := List.all_eq_true.mp (List.all_eq_true.mp hranges r hr) s hs
  rwa [Bool.or_eq_true, Nat.blt_eq, Nat.blt_eq] at hapart

/-- No word character is a blank. -/
theorem isBlank_of_isWord (h : isWord c = true) : isBlank c = false := by
  by_cases hc : c.toNat < 128
  · simp only [isWord, isLetter, hc, if_true, Bool.or_eq_true, Bool.and_eq_true,
      decide_eq_true_eq, beq_iff_eq] at h
    simp only [isBlank, hc, if_true, Bool.or_eq_false_iff, Bool.and_eq_false_iff,
      decide_eq_false_iff_not]
    omega
  · simp only [isWord, hc, if_false] at h
    simp only [isBlank, hc, if_false]
    refine Bool.eq_false_iff.mpr fun hblank => ?_
    obtain ⟨r, hr, hlo, hhi⟩ := Ranges.contains_iff.mp h
    obtain ⟨s, hs, hslo, hshi⟩ := Ranges.contains_iff.mp hblank
    rcases wordRange_disjoint_blankRange r hr s hs with hlt | hlt <;> omega

theorem isWord_of_isLetter (h : isLetter c = true) : isWord c = true :=
  isWord_of_isNameStart (by simp [isNameStart, h])

set_option maxRecDepth 8000 in
/-- A blank has no other case. -/
theorem upperChar_of_isBlank (h : isBlank c = true) : upperChar c = [c] := by
  by_cases hc : c.toNat < 128
  · have hlower : ¬ (97 ≤ c.toNat ∧ c.toNat ≤ 122) := by
      simp only [isBlank, hc, if_true, Bool.or_eq_true, Bool.and_eq_true, decide_eq_true_eq] at h
      omega
    simp only [upperChar, hc, hlower, if_true, if_false]
  · simp only [isBlank, hc, if_false] at h
    obtain ⟨r, hr, hlo, hhi⟩ := Ranges.contains_iff.mp h
    have hranges : ∀ r ∈ blankRanges, ∀ k ∈ List.range (r.2 + 1 - r.1),
        upperChar (Char.ofNat (r.1 + k)) = [Char.ofNat (r.1 + k)] := by
      decide +kernel
    have hk := hranges r hr (c.toNat - r.1) (List.mem_range.mpr (by omega))
    rwa [Nat.add_sub_cancel' hlo, Char.ofNat_toNat] at hk

end Classes

section Words

variable {cs ds : List Char}

theorem head?_splitOnP (p : Char → Bool) (cs : List Char) :
    (cs.splitOnP p).head? = some (cs.takeWhile fun c => !p c) := by
  induction cs with
  | nil => rfl
  | cons c cs ih =>
    rw [List.splitOnP_cons_eq_if_modifyHead]
    cases hc : p c with
    | true => simp [hc]
    | false => simp [hc, List.head?_modifyHead, ih]

theorem firstWord_cons_of_isBlank {c : Char} (h : isBlank c = true) (cs : List Char) :
    firstWord (c :: cs) = firstWord cs := by
  simp [firstWord, trimLeft, h]

/-- The first word is among the words, also where it is empty. -/
theorem firstWord_mem_splitOnP (cs : List Char) : firstWord cs ∈ cs.splitOnP isBlank := by
  induction cs with
  | nil => simp [firstWord, trimLeft]
  | cons c cs ih =>
    cases hc : isBlank c with
    | true =>
      rw [firstWord_cons_of_isBlank hc, List.splitOnP_cons_eq_if_modifyHead, if_pos hc]
      exact List.mem_cons_of_mem _ ih
    | false =>
      have hleft : trimLeft (c :: cs) = c :: cs := by simp [trimLeft, hc]
      rw [firstWord, hleft]
      exact List.mem_of_head? (head?_splitOnP isBlank (c :: cs))

/-- Behind a blank the first word of a text stays, if the text holds a character that
is none. -/
theorem firstWord_append (hcs : ∃ c ∈ cs, isBlank c = false)
    (hds : StopsAt (fun c => !isBlank c) ds) : firstWord (cs ++ ds) = firstWord cs := by
  obtain ⟨c, rest, -, happend⟩ := exists_trimLeft hcs
  have hleft : trimLeft cs = c :: rest := by simpa using happend []
  rw [firstWord, firstWord, happend, hleft, ← List.cons_append, List.takeWhile_append,
    takeWhile_of_stopsAt hds, List.append_nil]
  split
  · next hlength => exact ((List.takeWhile_prefix _).eq_of_length hlength).symm
  · rfl

/-- The words of a text without its leading blanks are words of the text. -/
theorem mem_splitOnP_of_trimLeft {w : List Char} (h : w ∈ (trimLeft cs).splitOnP isBlank) :
    w ∈ cs.splitOnP isBlank := by
  induction cs with
  | nil => exact h
  | cons c cs ih =>
    cases hc : isBlank c with
    | true =>
      rw [trimLeft, List.dropWhile_cons_of_pos hc] at h
      rw [List.splitOnP_cons_eq_if_modifyHead, if_pos hc]
      exact List.mem_cons_of_mem _ (ih h)
    | false => rwa [trimLeft, List.dropWhile_cons_of_neg (by simp [hc])] at h

end Words

end Text

namespace Shape

open Text

structure IsInner (word : List Char) : Prop where
  ne_nil : word ≠ []
  letters : ∀ k ∈ word, upperChar k = [k] ∧ isBlank k = false

theorem isInner_to : IsInner "TO".toList := ⟨by decide, forall_mem_of_all (by decide)⟩

theorem isInner_step : IsInner "STEP".toList := ⟨by decide, forall_mem_of_all (by decide)⟩

theorem isInner_then : IsInner "THEN".toList := ⟨by decide, forall_mem_of_all (by decide)⟩

section Inner

variable {word cs rest behind : List Char}

/-- Taking a word takes the text that is that word in upper case, character by
character. -/
theorem takeWord?_eq_some_iff : takeWord? word cs = some rest ↔
    ∃ front, cs = front ++ rest ∧ front.map upperChar = word.map ([·]) := by
  induction word generalizing cs with
  | nil => simp [takeWord?, eq_comm]
  | cons k ks ih =>
    cases cs with
    | nil => simp [takeWord?]
    | cons c cs =>
      rw [takeWord?]
      constructor
      · intro h
        split at h
        · next hc =>
          obtain ⟨front, rfl, hfront⟩ := ih.mp h
          exact ⟨c :: front, rfl, by simp [hc, hfront]⟩
        · cases h
      · rintro ⟨front, hcs, hfront⟩
        obtain ⟨d, front, rfl⟩ : ∃ d front', front = d :: front' := by
          cases front with
          | nil => cases hfront
          | cons d front => exact ⟨d, front, rfl⟩
        obtain ⟨rfl, rfl⟩ := List.cons.inj hcs
        obtain ⟨hd, hfront⟩ := List.cons.inj hfront
        rw [if_pos hd]
        exact ih.mpr ⟨front, rfl, hfront⟩

/-- What a word is taken from is the word in upper case and holds no blank. -/
theorem IsInner.upper_of_map (hword : IsInner word) {front : List Char}
    (h : front.map upperChar = word.map ([·])) :
    upper front = word ∧ ∀ c ∈ front, (!isBlank c) = true := by
  constructor
  · rw [upper, List.flatMap_def, h, ← List.flatMap_def, List.flatMap_singleton']
  · intro c hc
    obtain ⟨k, hk, hkc⟩ := List.mem_map.mp (h ▸ List.mem_map_of_mem hc)
    rw [Bool.not_eq_true']
    refine Bool.eq_false_iff.mpr fun hblank => ?_
    rw [upperChar_of_isBlank hblank] at hkc
    obtain rfl := (List.cons.inj hkc).1
    exact absurd hblank (by simp [(hword.letters k hk).2])

/-- A keyword is not found in front of a text whose first word is another one. -/
theorem behindWord?_eq_none (hword : IsInner word) (h : upper (firstWord cs) ≠ word) :
    behindWord? word (trimLeft cs) = none := by
  unfold behindWord?
  split
  · next c rest htake =>
    obtain ⟨front, hcs, hfront⟩ := takeWord?_eq_some_iff.mp htake
    obtain ⟨hupper, hblanks⟩ := hword.upper_of_map hfront
    split
    · next hbehind =>
      -- The blank behind the keyword would make it the whole first word.
      have hfirst : firstWord cs = front := by
        rw [firstWord, hcs]
        exact takeWhile_run hblanks (stopsAt_cons (by simp [hbehind.1]))
      exact absurd (by rw [hfirst, hupper]) h
    · rfl
  · rfl

theorem IsInner.map_self (hword : IsInner word) : word.map upperChar = word.map ([·]) :=
  List.map_congr_left fun k hk => (hword.letters k hk).1

/-- A keyword in any case is found in front of a text that is not all blank. -/
theorem behindWord?_append (hword : IsInner word) {front : List Char}
    (hfront : front.map upperChar = word.map ([·])) {y : Char} (hy : isBlank y = true)
    (hbehind : trimLeft behind ≠ []) :
    behindWord? word (trimLeft (front ++ y :: behind)) = some (trimLeft behind) := by
  obtain ⟨c, cs, rfl⟩ : ∃ c cs, front = c :: cs := by
    refine List.exists_cons_of_ne_nil ?_
    rintro rfl
    exact hword.ne_nil (List.map_eq_nil_iff.mp hfront.symm)
  have hc := (hword.upper_of_map hfront).2 c List.mem_cons_self
  have hleft : trimLeft (c :: cs ++ y :: behind) = c :: cs ++ y :: behind :=
    List.dropWhile_cons_of_neg (by simpa using hc)
  have htake : takeWord? word (c :: cs ++ y :: behind) = some (y :: behind) :=
    takeWord?_eq_some_iff.mpr ⟨c :: cs, rfl, hfront⟩
  rw [hleft]
  simp only [behindWord?, htake, hy, true_and, ne_eq, hbehind, not_false_eq_true, if_true]

def furtherWords (cs : List Char) : List (List Char) := (cs.splitOnP isBlank).tail

theorem furtherWords_cons_of_isBlank {c : Char} (h : isBlank c = true) (cs : List Char) :
    furtherWords (c :: cs) = cs.splitOnP isBlank := by
  rw [furtherWords, List.splitOnP_cons_eq_if_modifyHead, if_pos h, List.tail_cons]

theorem furtherWords_cons {c : Char} (h : isBlank c = false) (cs : List Char) :
    furtherWords (c :: cs) = furtherWords cs := by
  rw [furtherWords, List.splitOnP_cons_eq_if_modifyHead, if_neg (by simp [h]),
    List.tail_modifyHead, furtherWords]

theorem aroundWord?_eq_none (hword : IsInner word)
    (h : ∀ w ∈ furtherWords cs, upper w ≠ word) : aroundWord? word cs = none := by
  induction cs with
  | nil => rfl
  | cons c cs ih =>
    cases hc : isBlank c with
    | true =>
      rw [furtherWords_cons_of_isBlank hc] at h
      have hrest : ∀ w ∈ furtherWords cs, upper w ≠ word :=
        fun w hw => h w (List.mem_of_mem_tail hw)
      have hnone := behindWord?_eq_none hword (h _ (firstWord_mem_splitOnP cs))
      simp only [aroundWord?, hc, if_true, hnone, ih hrest, Option.map_none]
    | false =>
      rw [furtherWords_cons hc] at h
      simp only [aroundWord?, hc, Bool.false_eq_true, if_false, ih h, Option.map_none]

/-- The first standing of a keyword is behind a text that does not hold it. The blanks
at the end of that text go with the keyword. -/
theorem aroundWord?_append (hword : IsInner word) {front : List Char}
    (hfront : front.map upperChar = word.map ([·])) {x y : Char} (hx : isBlank x = true)
    (hy : isBlank y = true) (hbehind : trimLeft behind ≠ [])
    (h : ∀ w ∈ furtherWords cs, upper w ≠ word) :
    aroundWord? word (cs ++ x :: (front ++ y :: behind)) =
      some (trimRight cs, trimLeft behind) := by
  have hfound := behindWord?_append hword hfront hy hbehind
  induction cs with
  | nil => simp only [List.nil_append, aroundWord?, hx, if_true, hfound, trimRight]
  | cons c cs ih =>
    cases hc : isBlank c with
    | true =>
      rw [furtherWords_cons_of_isBlank hc] at h
      by_cases hcs : ∀ d ∈ cs, isBlank d = true
      · have hleft : trimLeft (cs ++ x :: (front ++ y :: behind)) =
            trimLeft (front ++ y :: behind) := by
          simp only [trimLeft, List.dropWhile_append_of_pos hcs, List.dropWhile_cons_of_pos hx]
        have hnil : trimRight (c :: cs) = [] :=
          trimRight_eq_nil_iff.mpr (List.forall_mem_cons.mpr ⟨hc, hcs⟩)
        simp only [List.cons_append, aroundWord?, hc, if_true, hleft, hfound, hnil]
      · have hmem : ∃ d ∈ cs, isBlank d = false := by simpa using hcs
        have hkept : trimRight (c :: cs) = c :: trimRight cs := by
          rw [trimRight_cons, if_neg fun hblank => hcs (trimRight_eq_nil_iff.mp hblank.2)]
        have hfirst : firstWord (cs ++ x :: (front ++ y :: behind)) = firstWord cs :=
          firstWord_append hmem (stopsAt_cons (by simp [hx]))
        have hother : upper (firstWord (cs ++ x :: (front ++ y :: behind))) ≠ word := by
          rw [hfirst]
          exact h _ (firstWord_mem_splitOnP cs)
        have hnone := behindWord?_eq_none hword hother
        have hrest := ih fun w hw => h w (List.mem_of_mem_tail hw)
        simp only [List.cons_append, aroundWord?, hc, if_true, hnone, hrest, Option.map_some, hkept]
    | false =>
      rw [furtherWords_cons hc] at h
      have hkept : trimRight (c :: cs) = c :: trimRight cs := by
        rw [trimRight_cons, if_neg (by simp [hc])]
      simp only [List.cons_append, aroundWord?, hc, Bool.false_eq_true, if_false, ih h,
        Option.map_some, hkept]

end Inner

section Parts

variable {cs rest right name : List Char}

theorem forall_isLetter_word (k : Keyword) : ∀ c ∈ k.word.toList, isLetter c = true := by
  apply forall_mem_of_all
  cases k <;> decide

theorem hasEdges_word (k : Keyword) : HasEdges k.word.toList := by
  refine hasEdges_of_forall ?_ fun c hc =>
    isBlank_of_isWord (isWord_of_isLetter (forall_isLetter_word k c hc))
  cases k <;> decide

/-- A command word is read as such in any case, unless it runs on. -/
theorem keyword?_append {k : Keyword} {word : List Char} (hletters : ∀ c ∈ word, isLetter c = true)
    (hword : upper word = k.word.toList) (hrest : StopsAt isWord rest) :
    keyword? (word ++ rest) = some (k, rest) := by
  have hfind : Keyword.ofWord? (String.ofList (upper word)) = some k := by
    rw [hword]
    cases k <;> decide
  have hstop : StopsAt isLetter rest := by
    intro c hc
    exact Bool.eq_false_iff.mpr fun hletter =>
      absurd (isWord_of_isLetter hletter) (by simp [hrest c hc])
  have hnone : rest.head?.any isWord = false := by
    cases rest with
    | nil => rfl
    | cons c rest => exact hrest c rfl
  simp only [keyword?, takeWhile_run hletters hstop, dropWhile_run hletters hstop, hnone,
    Bool.false_eq_true, if_false, hfind, Option.map_some]

theorem keyword?_word_append (k : Keyword) (hrest : StopsAt isWord rest) :
    keyword? (k.word.toList ++ rest) = some (k, rest) :=
  keyword?_append (forall_isLetter_word k) (by cases k <;> decide) hrest

/-- Digits between blanks are the line number that they spell. -/
theorem target?_of_trim {digits : List Char} (htrim : trim rest = digits) (hne : digits ≠ [])
    (hdigits : digits.all isDigit = true) : target? rest = some (.ofDigits digits) := by
  simp only [target?, htrim]
  exact if_pos ⟨hne, hdigits⟩

theorem forall_isWord_of_isName (h : isName name = true) : ∀ c ∈ name, isWord c = true := by
  cases name with
  | nil => cases h
  | cons c cs =>
    rw [isName, Bool.and_eq_true, List.all_eq_true] at h
    exact List.forall_mem_cons.mpr ⟨isWord_of_isLetter h.1, h.2⟩

theorem hasEdges_of_isName (h : isName name = true) : HasEdges name := by
  refine hasEdges_of_forall ?_ fun c hc => isBlank_of_isWord (forall_isWord_of_isName h c hc)
  rintro rfl
  cases h

/-- The left side of an assignment is the name in front of the equals sign. -/
theorem atEquals?_append (h : isName name = true) :
    atEquals? (name ++ ' ' :: '=' :: right) = some (name, right) := by
  cases name with
  | nil => cases h
  | cons c cs =>
    have hleft : ∀ d ∈ cs, isLeftSide d = true := by
      intro d hd
      have hword := forall_isWord_of_isName h d (List.mem_cons_of_mem _ hd)
      have hne : d ≠ '=' := by
        rintro rfl
        exact absurd hword (by decide)
      simp [isLeftSide, isBlank_of_isWord hword, hne]
    have hstop : StopsAt isLeftSide (' ' :: '=' :: right) := stopsAt_cons (by decide)
    have htrim : trimLeft (' ' :: '=' :: right) = '=' :: right := rfl
    simp only [List.cons_append, atEquals?, takeWhile_run hleft hstop, dropWhile_run hleft hstop,
      htrim]

theorem next?_name (h : isName name = true) : next? (' ' :: name) = some name := by
  have hedges := hasEdges_of_isName h
  have hblanks : ∀ c ∈ name, (!isBlank c) = true :=
    fun c hc => by simp [isBlank_of_isWord (forall_isWord_of_isName h c hc)]
  have hleft : trimLeft name = name := by simpa using hedges.trimLeft_append []
  have hne : name ≠ [] := by
    obtain ⟨c, cs, rfl, -⟩ := hedges.first
    simp
  have hspace : afterBlanks? (' ' :: name) = some name := congrArg some hleft
  have hstop : StopsAt (fun c => !isBlank c) [] := fun c hc => by cases hc
  have htake := takeWhile_run hblanks hstop
  have hdrop := dropWhile_run hblanks hstop
  rw [List.append_nil] at htake hdrop
  have hnil : trimLeft [] = [] := rfl
  simp only [next?, hspace, htake, hdrop, hnil, hne, ne_eq, not_false_eq_true, and_self, if_true,
    Option.bind_eq_bind, Option.bind_some]

end Parts

namespace LoopText

/-- A header behind the word FOR, as it is written around these parts. -/
def spelling (parts : LoopText) : List Char :=
  ' ' :: (parts.name ++ ' ' :: '=' :: ' ' :: (parts.start ++ ' ' :: ("TO".toList ++ ' ' ::
    (parts.bound ++ parts.step.elim [] fun step => ' ' :: ("STEP".toList ++ ' ' :: step)))))

structure IsSpelled (parts : LoopText) : Prop where
  name : isName parts.name = true
  start : ∃ c ∈ parts.start, isBlank c = false
  bound : ∃ c ∈ parts.bound, isBlank c = false
  step : ∀ step, parts.step = some step → ∃ c ∈ step, isBlank c = false
  start_free : ¬ HasWord "TO".toList parts.start
  bound_free : ¬ HasWord "STEP".toList parts.bound

def trimmed (parts : LoopText) : LoopText :=
  ⟨parts.name, trim parts.start, trim parts.bound, parts.step.map trim⟩

end LoopText

section Loop

variable {parts : LoopText}

/-- What an expression starts with, and that no keyword stands behind it. -/
theorem exists_trimLeft_of_free {word cs : List Char} (hcs : ∃ c ∈ cs, isBlank c = false)
    (hfree : ¬ HasWord word cs) :
    ∃ c rest, isBlank c = false ∧ (∀ ds, trimLeft (cs ++ ds) = c :: (rest ++ ds)) ∧
      trim cs = c :: trimRight rest ∧ ∀ w ∈ furtherWords rest, upper w ≠ word := by
  obtain ⟨c, rest, hc, happend⟩ := exists_trimLeft hcs
  have hleft : trimLeft cs = c :: rest := by simpa using happend []
  refine ⟨c, rest, hc, happend, ?_, fun w hw heq => hfree ⟨w, ?_, heq⟩⟩
  · exact trim_of_trimLeft hleft
  · rw [← furtherWords_cons hc, ← hleft] at hw
    exact mem_splitOnP_of_trimLeft (List.mem_of_mem_tail hw)

/-- An expression ends where the inner keyword behind it stands, in any case and between
any blanks. -/
theorem atWord?_append {word cs front behind : List Char} (hword : IsInner word)
    (hcs : ∃ c ∈ cs, isBlank c = false) (hfree : ¬ HasWord word cs)
    (hfront : front.map upperChar = word.map ([·])) {x y : Char} (hx : isBlank x = true)
    (hy : isBlank y = true) (hbehind : trimLeft behind ≠ []) (spare : Nat) :
    atWord? word spare (' ' :: (cs ++ x :: (front ++ y :: behind))) =
      some (trim cs, trimLeft behind) := by
  obtain ⟨c, rest, hc, happend, htrim, hwords⟩ := exists_trimLeft_of_free hcs hfree
  have hleft : trimLeft (' ' :: (cs ++ x :: (front ++ y :: behind))) =
      c :: (rest ++ x :: (front ++ y :: behind)) := happend _
  simp only [atWord?, hleft, aroundWord?_append hword hfront hx hy hbehind hwords, htrim]

/-- The condition of IF ends where THEN stands, and the clause is the rest. -/
theorem conditional?_append {condition front clause : List Char}
    (hcondition : ∃ c ∈ condition, isBlank c = false) (hfree : ¬ HasWord "THEN".toList condition)
    (hfront : front.map upperChar = "THEN".toList.map ([·])) {x y : Char} (hx : isBlank x = true)
    (hy : isBlank y = true) (hclause : ∃ c ∈ clause, isBlank c = false) :
    conditional? (' ' :: (condition ++ x :: (front ++ y :: clause))) =
      some (trim condition, trim clause) := by
  have hspace (cs : List Char) : (' ' :: cs).head?.any isBlank = true := rfl
  rw [conditional?, if_pos (hspace _), atWord?_append isInner_then hcondition hfree hfront hx hy
    (trimLeft_ne_nil hclause), Option.map_some]
  simp only [trim_trim, trim_trimLeft]

/-- A header is read as its parts. -/
theorem loop?_spelling (h : parts.IsSpelled) : loop? parts.spelling = some parts.trimmed := by
  obtain ⟨name, start, bound, step⟩ := parts
  obtain ⟨hname, hstart, hbound, hstep, hto, hfree⟩ := h
  dsimp only at hname hstart hbound hstep hto hfree
  have hnames (right : List Char) : (afterBlanks? (' ' :: (name ++ ' ' :: '=' :: right))).bind
      atEquals? = some (name, right) := by
    have hblanks : afterBlanks? (' ' :: (name ++ ' ' :: '=' :: right)) =
        some (trimLeft (name ++ ' ' :: '=' :: right)) := rfl
    rw [hblanks, (hasEdges_of_isName hname).trimLeft_append, Option.bind_some,
      atEquals?_append hname]
  obtain ⟨c, rest, hc, happend, htrim, hwords⟩ := exists_trimLeft_of_free hbound hfree
  have hbounds (ds : List Char) :
      atWord? "TO".toList 2 (' ' :: (start ++ ' ' :: ("TO".toList ++ ' ' :: (bound ++ ds)))) =
        some (trim start, c :: (rest ++ ds)) := by
    rw [atWord?_append isInner_to hstart hto isInner_to.map_self (by decide) (by decide)
      (by simp [happend]), happend]
  simp only [loop?, LoopText.spelling, LoopText.trimmed, hnames, Option.bind_eq_bind,
    Option.bind_some, hbounds, trim_trim]
  cases step with
  | none =>
    have hnone := aroundWord?_eq_none isInner_step hwords
    simp only [Option.elim_none, List.append_nil, hnone, trim_cons hc, htrim]
    rfl
  | some step =>
    have hsome := aroundWord?_append (x := ' ') (y := ' ') isInner_step isInner_step.map_self
      (by decide) (by decide) (trimLeft_ne_nil (hstep step rfl)) hwords
    simp only [Option.elim_some, hsome, ← htrim, trim_trim, trim_trimLeft]
    rfl

end Loop

end Shape

namespace Command

open Text

variable {name value : List Char}

/-- A statement is read as it is written between the blanks at its ends. -/
theorem ofText_trimString {s : Statement} {code : List Char}
    (hcode : trimString s.code = String.ofList code) :
    ofText (trimString s.code) = ofTrimmed code := by
  have htrim : trim s.code.toList = code := String.ofList_injective hcode
  rw [ofText, trimString, String.toList_ofList, trim_trim, htrim]

/-- A name that has been checked is put into upper case. -/
theorem withName_of_isName (h : isName name = true) (k : String → Command) :
    withName name k = k (String.ofList (upper name)) := by
  rw [withName, normalName, String.toList_ofList, if_pos h, upperString, String.toList_ofList]

/-- Behind LET the sides of an assignment are those of the text that follows. -/
theorem ofTrimmed_let_append {cs : List Char} (h : HasEdges cs) :
    ofTrimmed ("LET".toList ++ ' ' :: cs) = match Shape.assignment? cs with
      | some (name, value) => assignment name value
      | none => malformed .LET ("LET".toList ++ ' ' :: cs) := by
  have hk : Shape.keyword? ("LET".toList ++ ' ' :: cs) = some (.LET, ' ' :: cs) :=
    Shape.keyword?_word_append .LET (stopsAt_cons (by decide))
  have hleft : trimLeft cs = cs := by simpa using h.trimLeft_append []
  have hblanks : Shape.afterBlanks? (' ' :: cs) = some cs := congrArg some hleft
  rw [ofTrimmed_eq]
  rcases hassign : Shape.assignment? cs with _ | ⟨name, value⟩ <;>
    simp only [hk, hblanks, Option.bind_some, hassign]

theorem ofTrimmed_let (hname : isName name = true) (hvalue : HasEdges value) :
    ofTrimmed ("LET".toList ++ ' ' :: (name ++ ' ' :: '=' :: ' ' :: value)) =
      .assign (String.ofList (upper name)) value := by
  have hedges : HasEdges (name ++ ' ' :: '=' :: ' ' :: value) :=
    (Shape.hasEdges_of_isName hname).append hvalue [' ', '=', ' ']
  have htrim : trim (' ' :: value) = value := hvalue.trim
  rw [ofTrimmed_let_append hedges, Shape.assignment?, Shape.atEquals?_append hname]
  simp only [assignment, withName_of_isName hname, htrim]

theorem ofTrimmed_for {parts : Shape.LoopText} (h : parts.IsSpelled) :
    ofTrimmed ("FOR".toList ++ parts.spelling) =
      .loop ⟨String.ofList (upper parts.name), trim parts.start, trim parts.bound,
        parts.step.map trim, "FOR" ++ String.ofList parts.spelling⟩ := by
  have hk : Shape.keyword? ("FOR".toList ++ parts.spelling) = some (.FOR, parts.spelling) :=
    Shape.keyword?_word_append .FOR (stopsAt_cons (by decide))
  rw [ofTrimmed_eq]
  simp only [hk, Shape.loop?_spelling h]
  exact withName_of_isName h.name _

theorem ofTrimmed_next (hname : isName name = true) :
    ofTrimmed ("NEXT".toList ++ ' ' :: name) = .next (String.ofList (upper name)) := by
  have hk : Shape.keyword? ("NEXT".toList ++ ' ' :: name) = some (.NEXT, ' ' :: name) :=
    Shape.keyword?_word_append .NEXT (stopsAt_cons (by decide))
  rw [ofTrimmed_eq]
  simp only [hk, Shape.next?_name hname]
  exact withName_of_isName hname _

end Command

end LineBasic
