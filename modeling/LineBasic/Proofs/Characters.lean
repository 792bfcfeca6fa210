import LineBasic.Expr.Token
import LineBasic.Text.Blank
import LineBasic.Text.Upper

/-!
How the classes of characters lie to each other, and where a run of characters
of one class ends.
-/

namespace LineBasic

namespace Text

theorem isDigit_iff_of_ascii {c : Char} (h : c.toNat < 128) :
    isDigit c = true ↔ 48 ≤ c.toNat ∧ c.toNat ≤ 57 := by
  simp only [isDigit, digit?, h, if_true]
  split <;> simp_all

/-- Beyond ASCII the digits are those of the ranges. -/
theorem exists_range_of_isDigit {c : Char} (h : isDigit c = true) (hc : ¬ c.toNat < 128) :
    ∃ r ∈ digitRanges, r.1 ≤ c.toNat ∧ c.toNat ≤ r.2 := by
  simp only [isDigit, digit?, hc, if_false, Option.isSome_map] at h
  obtain ⟨r, hr⟩ := Option.isSome_iff_exists.mp h
  have hprop := List.find?_some hr
  simp only [Bool.and_eq_true, decide_eq_true_eq] at hprop
  exact ⟨r, List.mem_of_find?_eq_some hr, hprop⟩

set_option maxRecDepth 8000 in
theorem exists_wordRange_of_digitRange :
    ∀ r ∈ digitRanges, ∃ s ∈ wordRanges, s.1 ≤ r.1 ∧ r.2 ≤ s.2 := by
  -- compared as booleans, which the kernel does by itself
  have hranges : digitRanges.all (fun r =>
      wordRanges.any fun s => Nat.ble s.1 r.1 && Nat.ble r.2 s.2) = true := by
    decide +kernel
  intro r hr
  obtain ⟨s, hs, hle⟩ := List.any_eq_true.mp (List.all_eq_true.mp hranges r hr)
  rw [Bool.and_eq_true] at hle
  exact ⟨s, hs, Nat.le_of_ble_eq_true hle.1, Nat.le_of_ble_eq_true hle.2⟩

theorem digitRange_disjoint_blankRange :
    ∀ r ∈ digitRanges, ∀ s ∈ blankRanges, r.2 < s.1 ∨ s.2 < r.1 := by
  decide +kernel

/-- Digits of every script are word characters. -/
theorem isWord_of_isDigit {c : Char} (h : isDigit c = true) : isWord c = true := by
  by_cases hc : c.toNat < 128
  · have hrange := (isDigit_iff_of_ascii hc).mp h
    simp [isWord, hc, hrange]
  · obtain ⟨r, hr, hlo, hhi⟩ := exists_range_of_isDigit h hc
    obtain ⟨s, hs, hslo, hshi⟩ := exists_wordRange_of_digitRange r hr
    simp only [isWord, hc, if_false]
    exact Ranges.contains_iff.mpr ⟨s, hs, Nat.le_trans hslo hlo, Nat.le_trans hhi hshi⟩

/-- No digit is a blank. -/
theorem isBlank_of_isDigit {c : Char} (h : isDigit c = true) : isBlank c = false := by
  by_cases hc : c.toNat < 128
  · have hrange := (isDigit_iff_of_ascii hc).mp h
    simp only [isBlank, hc, if_true]
    simp only [Bool.or_eq_false_iff, Bool.and_eq_false_iff, decide_eq_false_iff_not]
    omega
  · obtain ⟨r, hr, hlo, hhi⟩ := exists_range_of_isDigit h hc
    simp only [isBlank, hc, if_false]
    refine Bool.eq_false_iff.mpr fun hblank => ?_
    obtain ⟨s, hs, hslo, hshi⟩ := Ranges.contains_iff.mp hblank
    rcases digitRange_disjoint_blankRange r hr s hs with hlt | hlt <;> omega

structure HasEdges (cs : List Char) : Prop where
  first : ∃ c rest, cs = c :: rest ∧ isBlank c = false
  last : ∃ front c, cs = front ++ [c] ∧ isBlank c = false

theorem trimRight_concat {c : Char} (h : isBlank c = false) (cs : List Char) :
    trimRight (cs ++ [c]) = cs ++ [c] := by
  induction cs with
  | nil => simp [trimRight, h]
  | cons d cs ih =>
    rw [List.cons_append, trimRight, ih]
    cases cs <;> rfl

theorem trimRight_concat_blank {c : Char} (h : isBlank c = true) (cs : List Char) :
    trimRight (cs ++ [c]) = trimRight cs := by
  induction cs with
  | nil => simp [trimRight, h]
  | cons d cs ih => rw [List.cons_append, trimRight, trimRight, ih]

theorem HasEdges.trim {cs : List Char} (h : HasEdges cs) : trim cs = cs := by
  obtain ⟨⟨c, rest, hfirst, hc⟩, front, d, hlast, hd⟩ := h
  have hleft : trimLeft cs = cs := by
    rw [hfirst]
    simp [trimLeft, hc]
  rw [Text.trim, hleft, hlast, trimRight_concat hd]

/-- Blanks around a text are trimmed. -/
theorem HasEdges.trim_spaces {cs : List Char} (h : HasEdges cs) :
    Text.trim (' ' :: (cs ++ [' '])) = cs := by
  have htrim := h.trim
  obtain ⟨⟨c, rest, hfirst, hc⟩, _⟩ := h
  have hspace : isBlank ' ' = true := by decide
  have hleft : trimLeft (' ' :: (cs ++ [' '])) = trimLeft cs ++ [' '] := by
    rw [hfirst]
    simp [trimLeft, hc, hspace]
  rw [Text.trim, hleft, trimRight_concat_blank hspace]
  exact htrim

end Text

theorem forall_mem_of_all {P : Char → Prop} [DecidablePred P] {cs : List Char}
    (h : cs.all (fun c => decide (P c)) = true) : ∀ c ∈ cs, P c := by
  intro c hc
  exact of_decide_eq_true (List.all_eq_true.mp h c hc)

/-- A character that is no digit differs from every digit. -/
theorem ne_of_isDigit {c d : Char} (hc : Text.isDigit c = true) (hd : Text.isDigit d = false) :
    c ≠ d := by
  rintro rfl
  rw [hc] at hd
  cases hd

section Names

variable {c : Char}

theorem isNameChar_iff : isNameChar c = true ↔
    65 ≤ c.toNat ∧ c.toNat ≤ 90 ∨ 97 ≤ c.toNat ∧ c.toNat ≤ 122 ∨ c.toNat = 95 ∨
      48 ≤ c.toNat ∧ c.toNat ≤ 57 := by
  have hunderscore : c = '_' ↔ c.toNat = 95 := by
    rw [← Char.toNat_inj]
    rfl
  simp only [isNameChar, isNameStart, Text.isLetter, Bool.or_eq_true, Bool.and_eq_true,
    decide_eq_true_eq, beq_iff_eq, hunderscore]
  omega

theorem isNameChar_of_isNameStart (h : isNameStart c = true) : isNameChar c = true := by
  simp [isNameChar, h]

/-- Names are words. -/
theorem isWord_of_isNameChar (h : isNameChar c = true) : Text.isWord c = true := by
  have hrange := isNameChar_iff.mp h
  have hc : c.toNat < 128 := by omega
  simp only [Text.isWord, hc, if_true, Text.isLetter, Bool.or_eq_true, Bool.and_eq_true,
    decide_eq_true_eq, beq_iff_eq]
  omega

theorem isWord_of_isNameStart (h : isNameStart c = true) : Text.isWord c = true :=
  isWord_of_isNameChar (isNameChar_of_isNameStart h)

theorem isBlank_of_isNameChar (h : isNameChar c = true) : Text.isBlank c = false := by
  have hrange := isNameChar_iff.mp h
  have hc : c.toNat < 128 := by omega
  simp only [Text.isBlank, hc, if_true, Bool.or_eq_false_iff, Bool.and_eq_false_iff,
    decide_eq_false_iff_not]
  omega

/-- No digit of any script starts a name. -/
theorem isNameStart_of_isDigit (h : Text.isDigit c = true) : isNameStart c = false := by
  refine Bool.eq_false_iff.mpr fun hstart => ?_
  have hrange := isNameChar_iff.mp (isNameChar_of_isNameStart hstart)
  have hc : c.toNat < 128 := by omega
  have hdigit := (Text.isDigit_iff_of_ascii hc).mp h
  simp only [isNameStart, Text.isLetter, Bool.or_eq_true, Bool.and_eq_true, decide_eq_true_eq,
    beq_iff_eq] at hstart
  rcases hstart with hletter | rfl
  · omega
  · simp at hdigit

/-- The upper case of a name character is one in upper case. -/
theorem upperChar_of_isNameChar (h : isNameChar c = true) :
    ∃ d, Text.upperChar c = [d] ∧ Text.upperChar d = [d] := by
  have hrange := isNameChar_iff.mp h
  have hc : c.toNat < 128 := by omega
  by_cases hlower : 97 ≤ c.toNat ∧ c.toNat ≤ 122
  · have hvalid : (c.toNat - 32).isValidChar := .inl (by omega)
    have hd : (Char.ofNat (c.toNat - 32)).toNat = c.toNat - 32 := by
      rw [Char.ofNat, dif_pos hvalid]
      rfl
    refine ⟨Char.ofNat (c.toNat - 32), by simp [Text.upperChar, hc, hlower], ?_⟩
    have hascii : c.toNat - 32 < 128 := by omega
    have hupper : ¬ (97 ≤ c.toNat - 32 ∧ c.toNat - 32 ≤ 122) := by omega
    simp only [Text.upperChar, hd, hascii, hupper, if_true, if_false]
  · have hself : Text.upperChar c = [c] := by
      simp only [Text.upperChar, hc, hlower, if_true, if_false]
    exact ⟨c, hself, hself⟩

/-- Putting a name into upper case once is enough. -/
theorem upper_upper_of_isNameChar {cs : List Char} (h : ∀ c ∈ cs, isNameChar c = true) :
    Text.upper (Text.upper cs) = Text.upper cs := by
  induction cs with
  | nil => rfl
  | cons c cs ih =>
    obtain ⟨d, hc, hd⟩ := upperChar_of_isNameChar (h c List.mem_cons_self)
    have htail := ih fun c' hc' => h c' (List.mem_cons_of_mem _ hc')
    simp only [Text.upper, List.flatMap_cons, hc, List.singleton_append, hd] at htail ⊢
    rw [htail]

end Names

/-- Whether a text does not go on with a character of a class. -/
def StopsAt (p : Char → Bool) (rest : List Char) : Prop :=
  ∀ c, rest.head? = some c → p c = false

section Runs

variable {p : Char → Bool} {cs rest : List Char}

theorem stopsAt_cons {c : Char} (h : p c = false) : StopsAt p (c :: rest) := by
  intro d hd
  cases hd
  exact h

/-- What is left behind a run does not go on with its characters. -/
theorem stopsAt_dropWhile (p : Char → Bool) (cs : List Char) : StopsAt p (cs.dropWhile p) := by
  intro c hc
  have hhead := List.head?_dropWhile_not p cs
  rw [hc] at hhead
  simpa using hhead

theorem takeWhile_of_stopsAt (h : StopsAt p rest) : rest.takeWhile p = [] := by
  cases rest with
  | nil => rfl
  | cons c rest => simp [h c rfl]

theorem dropWhile_of_stopsAt (h : StopsAt p rest) : rest.dropWhile p = rest := by
  cases rest with
  | nil => rfl
  | cons c rest => simp [h c rfl]

/-- A run of characters is taken up to where it stops. -/
theorem takeWhile_run (hcs : ∀ c ∈ cs, p c = true) (h : StopsAt p rest) :
    (cs ++ rest).takeWhile p = cs := by
  rw [List.takeWhile_append_of_pos hcs, takeWhile_of_stopsAt h, List.append_nil]

theorem dropWhile_run (hcs : ∀ c ∈ cs, p c = true) (h : StopsAt p rest) :
    (cs ++ rest).dropWhile p = rest := by
  rw [List.dropWhile_append_of_pos hcs, dropWhile_of_stopsAt h]

theorem mem_takeWhile {c : Char} (h : c ∈ cs.takeWhile p) : p c = true :=
  List.all_eq_true.mp List.all_takeWhile c h

end Runs

end LineBasic
