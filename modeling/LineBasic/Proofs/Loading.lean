import Mathlib.Data.List.Sort
import Mathlib.Data.List.TakeWhile
import Mathlib.Data.List.Perm.Basic
import LineBasic.Program
import LineBasic.Proofs.Decimals
import LineBasic.Proofs.Trimming

/-!
What the lines of a text denote: the statements that the lines of the right form
spell, in the order of their numbers, unless a line has another form or a number
stands twice. Loading yields that and nothing else, whatever the order of the
lines. It breaks off at a line whose number has more digits than the host reads, if
none before it has another form.
-/

namespace LineBasic

namespace LineNumber

/-- A number behind as many zeros as the host reads digits. -/
def overlong (n : Nat) : List Char := List.replicate Text.maxDigits '0' ++ natDigits n

section Overlong

variable {c : Char} (n : Nat)

theorem overlong_ne_nil : overlong n ≠ [] :=
  List.append_ne_nil_of_right_ne_nil _ (natDigits_ne_nil n)

theorem isDigit_of_mem_overlong {n : Nat} (h : c ∈ overlong n) : Text.isDigit c = true := by
  rcases List.mem_append.mp h with h | h
  · exact isDigit_of_mem_zeros h
  · exact isDigit_of_mem_natDigits h

theorem digitsValue_overlong : Text.digitsValue (overlong n) = n := by
  rw [overlong, Text.digitsValue_append, Text.digitsValue_zeros, digitsValue_natDigits,
    Nat.zero_mul, Nat.zero_add]

theorem length_overlong : (overlong n).length = Text.maxDigits + (natDigits n).length := by
  rw [overlong, List.length_append, List.length_replicate]

theorem maxDigits_lt_length_overlong : Text.maxDigits < (overlong n).length := by
  rw [length_overlong]
  exact Nat.lt_add_of_pos_right (List.length_pos_iff.mpr (natDigits_ne_nil n))

end Overlong

end LineNumber

namespace Program

/-- Whether a line is left out: it is blank, or only digits once it is trimmed. -/
def isSkipped (line : String) : Bool := (Text.trim line.toList).all Text.isDigit

def kept (lines : List String) : List String := lines.filter fun line => !isSkipped line

structure Parts (line : String) (digits rest : List Char) : Prop where
  trimmed : ∃ blanks, Text.trim line.toList = digits ++ blanks ++ rest ∧ blanks ≠ [] ∧
    ∀ c ∈ blanks, Text.isBlank c = true
  digits_ne_nil : digits ≠ []
  isDigit : ∀ c ∈ digits, Text.isDigit c = true
  rest_ne_nil : rest ≠ []

/-- Whether a line spells a statement: its digits, which are not too many, denote the
number, and what stands behind the blanks is the code. -/
def Spells (line : String) (s : Statement) : Prop :=
  ∃ digits rest, Parts line digits rest ∧ digits.length ≤ Text.maxDigits ∧
    s.number = Text.digitsValue digits ∧ s.code = Text.trimString (String.ofList rest)

/-- Whether a line is neither left out nor of the right form with a positive
number. -/
def IsMalformed (line : String) : Prop :=
  isSkipped line = false ∧ ∀ digits rest, Parts line digits rest →
    digits.length ≤ Text.maxDigits ∧ Text.digitsValue digits = 0

/-- Whether a line has the right form, but more digits than the host reads. -/
def IsOversized (line : String) (length : Nat) : Prop :=
  ∃ digits rest, Parts line digits rest ∧ digits.length = length ∧ Text.maxDigits < length

inductive Stops (line : String) : Abort → Prop
  | malformed (h : IsMalformed line) : Stops line (.fault (.invalidLine (Text.trimString line)))
  | oversized {length : Nat} (h : IsOversized line length) : Stops line (.oversized length)

inductive Denotes (lines : List String) : Except Abort Program → Prop
  | stopped {before after : List String} {line : String} {e : Abort}
      (hlines : lines = before ++ line :: after) (hbefore : ∀ l ∈ before, ∀ e, ¬ Stops l e)
      (hline : Stops line e) : Denotes lines (.error e)
  | repeats {ss : List Statement} {numbers : List Nat}
      (hspells : List.Forall₂ Spells (kept lines) ss) (hne : numbers ≠ [])
      (hascending : numbers.Pairwise (· < ·))
      (hmem : ∀ n, n ∈ numbers ↔ 2 ≤ (ss.map Statement.number).count n) :
      Denotes lines (.error (.fault (.duplicateLines numbers)))
  | program {ss : List Statement} {p : Program}
      (hspells : List.Forall₂ Spells (kept lines) ss) (hperm : p.statements.Perm ss) :
      Denotes lines (.ok p)

section Lines

variable {line : String} {lines : List String} {digits rest : List Char} {s : Statement}
  {ss : List Statement} {e : Abort}

theorem dropWhile_eq_nil_iff : (Text.trim line.toList).dropWhile Text.isDigit = [] ↔
    isSkipped line = true := by
  rw [List.dropWhile_eq_nil_iff, isSkipped, List.all_eq_true]

/-- The digits of a line of the right form end at a blank, and up to blanks the
rest is what stands behind it. -/
theorem Parts.cut (h : Parts line digits rest) :
    (Text.trim line.toList).takeWhile Text.isDigit = digits ∧
      ∃ c tail, (Text.trim line.toList).dropWhile Text.isDigit = c :: tail ∧
        Text.isBlank c = true ∧ Text.trim tail = Text.trim rest := by
  obtain ⟨_ | ⟨c, blanks⟩, htrim, hne, hblanks⟩ := h.trimmed
  · exact absurd rfl hne
  have hc := hblanks c List.mem_cons_self
  have hstop : StopsAt Text.isDigit (c :: blanks ++ rest) :=
    stopsAt_cons (Bool.eq_false_iff.mpr fun hdigit => by
      simp [Text.isBlank_of_isDigit hdigit] at hc)
  rw [htrim, List.append_assoc, takeWhile_run h.isDigit hstop, dropWhile_run h.isDigit hstop]
  exact ⟨rfl, c, blanks ++ rest, rfl, hc,
    Text.trim_append_of_isBlank (fun d hd => hblanks d (List.mem_cons_of_mem c hd)) rest⟩

/-- A line of the right form is kept. -/
theorem Parts.not_isSkipped (h : Parts line digits rest) : isSkipped line = false := by
  obtain ⟨-, c, tail, hdrop, -⟩ := h.cut
  refine Bool.eq_false_iff.mpr fun hskipped => ?_
  rw [dropWhile_eq_nil_iff.mpr hskipped] at hdrop
  cases hdrop

/-- Digits, a space and a code without blanks at its ends make a line of the right form:
nothing is trimmed, and whatever the code starts with stands behind the space. -/
theorem parts_of_hasEdges {code : String} (hne : digits ≠ [])
    (hdigits : ∀ c ∈ digits, Text.isDigit c = true) (h : Text.HasEdges code.toList) :
    Parts (String.ofList digits ++ " " ++ code) digits code.toList := by
  have htext : (String.ofList digits ++ " " ++ code).toList =
      digits ++ ([' '] ++ code.toList) := by
    rw [String.toList_append, String.toList_append, String.toList_ofList, List.append_assoc]
    rfl
  have hedges : Text.HasEdges (String.ofList digits ++ " " ++ code).toList := by
    rw [htext]
    exact (Text.hasEdges_of_forall hne fun c hc =>
      Text.isBlank_of_isDigit (hdigits c hc)).append h _
  refine ⟨⟨[' '], ?_, by simp, by simp; decide⟩, hne, hdigits, ?_⟩
  · rw [hedges.trim, htext, List.append_assoc]
  · obtain ⟨c, rest, hfirst, -⟩ := h.first
    rw [hfirst]
    exact List.cons_ne_nil c rest

/-- Where a line is cut behind its digits, at a blank, it has the right form:
being trimmed it does not end there. -/
theorem parts_of_dropWhile {c : Char} {tail : List Char}
    (hdigits : (Text.trim line.toList).takeWhile Text.isDigit ≠ [])
    (hdrop : (Text.trim line.toList).dropWhile Text.isDigit = c :: tail)
    (hc : Text.isBlank c = true) :
    Parts line ((Text.trim line.toList).takeWhile Text.isDigit) tail := by
  have htrim := (Text.trim line.toList).takeWhile_append_dropWhile (p := Text.isDigit)
  rw [hdrop] at htrim
  refine ⟨⟨[c], by rw [List.append_assoc]; exact htrim.symm, by simp, by simpa using hc⟩,
    hdigits, fun d hd => mem_takeWhile hd, ?_⟩
  rintro rfl
  rw [Text.isBlank_of_trim htrim.symm] at hc
  cases hc

/-- No line both spells a statement and stops the loading. -/
theorem Spells.not_stops (h : Spells line s) : ¬ Stops line e := by
  obtain ⟨digits, rest, hparts, hlength, hnumber, -⟩ := h
  intro hstops
  cases hstops with
  | malformed h =>
    have hpos := s.number_pos
    rw [hnumber, (h.2 digits rest hparts).2] at hpos
    exact absurd hpos (Nat.lt_irrefl 0)
  | oversized h =>
    obtain ⟨digits', rest', hparts', rfl, hlong⟩ := h
    rw [← hparts'.cut.1, hparts.cut.1] at hlong
    exact absurd hlength (Nat.not_le_of_lt hlong)

theorem Stops.not_isSkipped (h : Stops line e) : isSkipped line = false := by
  cases h with
  | malformed h => exact h.1
  | oversized h =>
    obtain ⟨digits, rest, hparts, -⟩ := h
    exact hparts.not_isSkipped

/-- A line of the right form has too many digits, or a number that is positive or not. -/
theorem Parts.ofText (h : Parts line digits rest) : Line.ofText line =
    match LineNumber.ofDigits digits with
    | .line n =>
      if h : 0 < n then .ok (.statement ⟨n, Text.trimString (String.ofList rest), h⟩)
      else .error (.invalidLine (Text.trimString line))
    | .oversized n => .ok (.oversized n) := by
  obtain ⟨htake, c, tail, hdrop, hc, htail⟩ := h.cut
  have hcode : Text.trimString (String.ofList tail) = Text.trimString (String.ofList rest) := by
    rw [Text.trimString, Text.trimString, String.toList_ofList, String.toList_ofList, htail]
  unfold Line.ofText Line.ofTrimmed?
  simp only [htake, hdrop, if_pos (And.intro h.digits_ne_nil hc), hcode]
  cases LineNumber.ofDigits digits with
  | oversized n => rfl
  | line n =>
    by_cases hpos : 0 < n
    · simp only [dif_pos hpos]
    · simp only [dif_neg hpos]

theorem readLines_cons_of_skipped (h : Line.ofText line = .ok .skipped) :
    readLines (line :: lines) = readLines lines := by
  rw [readLines, h]

theorem readLines_cons_of_statement (h : Line.ofText line = .ok (.statement s)) :
    readLines (line :: lines) = (readLines lines).map (s :: ·) := by
  rw [readLines, h]

/-- What becomes of a line: it is left out, it spells a statement, or it stops the
loading. -/
theorem line_cases (line : String) :
    (Line.ofText line = .ok .skipped ∧ isSkipped line = true) ∨
    (∃ s, Line.ofText line = .ok (.statement s) ∧ Spells line s) ∨
    ∃ e, Stops line e ∧ ∀ lines, readLines (line :: lines) = .error e := by
  have hreads {f : Fault} (h : Line.ofText line = .error f) (lines : List String) :
      readLines (line :: lines) = .error (.fault f) := by rw [readLines, h]
  by_cases hform : ∃ digits rest, Parts line digits rest
  · obtain ⟨digits, rest, hparts⟩ := hform
    have htext := hparts.ofText
    by_cases hlength : digits.length ≤ Text.maxDigits
    · rw [LineNumber.ofDigits_of_le hlength] at htext
      by_cases hpos : 0 < Text.digitsValue digits
      · exact .inr (.inl ⟨_, htext.trans (dif_pos hpos), digits, rest, hparts, hlength, rfl, rfl⟩)
      · have hmalformed : IsMalformed line := by
          refine ⟨hparts.not_isSkipped, fun digits' rest' hparts' => ?_⟩
          rw [← hparts'.cut.1, hparts.cut.1]
          exact ⟨hlength, Nat.eq_zero_of_not_pos hpos⟩
        exact .inr (.inr ⟨_, .malformed hmalformed, hreads (htext.trans (dif_neg hpos))⟩)
    · have hlong := Nat.lt_of_not_le hlength
      rw [LineNumber.ofDigits_of_lt hlong] at htext
      exact .inr (.inr ⟨_, .oversized ⟨digits, rest, hparts, rfl, hlong⟩,
        fun lines => by rw [readLines, htext]⟩)
  · cases hskipped : isSkipped line with
    | true =>
      refine .inl ⟨?_, rfl⟩
      rw [Line.ofText, Line.ofTrimmed?, dropWhile_eq_nil_iff.mpr hskipped]
    | false =>
      have hmalformed : IsMalformed line :=
        ⟨hskipped, fun digits rest hparts => absurd ⟨digits, rest, hparts⟩ hform⟩
      refine .inr (.inr ⟨_, .malformed hmalformed, hreads ?_⟩)
      unfold Line.ofText Line.ofTrimmed?
      cases hdrop : (Text.trim line.toList).dropWhile Text.isDigit with
      | nil =>
        rw [dropWhile_eq_nil_iff.mp hdrop] at hskipped
        cases hskipped
      | cons c tail =>
        have hnone : ¬ ((Text.trim line.toList).takeWhile Text.isDigit ≠ [] ∧ Text.isBlank c) :=
          fun h => hform ⟨_, _, parts_of_dropWhile h.1 hdrop h.2⟩
        simp only [if_neg hnone]

/-- A line spells one statement at most. -/
theorem Spells.unique {t : Statement} (hs : Spells line s) (ht : Spells line t) : s = t := by
  obtain ⟨digits, rest, hparts, -, hnumber, hcode⟩ := hs
  obtain ⟨digits', rest', hparts', -, hnumber', hcode'⟩ := ht
  obtain ⟨htake, c, tail, hdrop, -, htail⟩ := hparts.cut
  obtain ⟨htake', c', tail', hdrop', -, htail'⟩ := hparts'.cut
  -- the rests may differ by blanks in front, which the code is without
  have hrest : Text.trim rest = Text.trim rest' := by
    rw [← htail, ← htail', (List.cons.inj (hdrop.symm.trans hdrop')).2]
  have hcodes : s.code = t.code := by
    rw [hcode, hcode', Text.trimString, Text.trimString, String.toList_ofList,
      String.toList_ofList, hrest]
  have hnumbers : s.number = t.number := by rw [hnumber, hnumber', ← htake, ← htake']
  cases s
  cases t
  cases hcodes
  cases hnumbers
  rfl

theorem Spells.not_isSkipped (h : Spells line s) : isSkipped line = false := by
  obtain ⟨digits, rest, hparts, -⟩ := h
  exact hparts.not_isSkipped

theorem kept_cons_of_isSkipped (h : isSkipped line = true) : kept (line :: lines) = kept lines := by
  simp [kept, h]

theorem kept_cons_of_not_isSkipped (h : isSkipped line = false) :
    kept (line :: lines) = line :: kept lines := by
  simp [kept, h]

theorem Stops.not_forall₂ (h : Stops line e) (hmem : line ∈ lines) :
    ¬ List.Forall₂ Spells (kept lines) ss := by
  intro hspells
  have hkept : line ∈ kept lines := List.mem_filter.mpr ⟨hmem, by simp [h.not_isSkipped]⟩
  obtain ⟨i, hi, rfl⟩ := List.getElem_of_mem hkept
  have hi' : i < ss.length := hspells.length_eq ▸ hi
  exact (hspells.get hi hi').not_stops h

/-- Reading stops at the first line that stops it; before it and without it the
statements are those of the kept lines. -/
theorem readLines_cases (lines : List String) :
    (∃ ss, readLines lines = .ok ss ∧ List.Forall₂ Spells (kept lines) ss) ∨
    (∃ before line after e, lines = before ++ line :: after ∧
      (∀ l ∈ before, ∀ e, ¬ Stops l e) ∧ Stops line e ∧ readLines lines = .error e) := by
  induction lines with
  | nil => exact .inl ⟨[], rfl, .nil⟩
  | cons line lines ih =>
    rcases line_cases line with ⟨hline, hskipped⟩ | ⟨s, hline, hspells⟩ | ⟨e, hstops, hline⟩
    · rw [readLines_cons_of_skipped hline, kept_cons_of_isSkipped hskipped]
      have hgood (e : Abort) : ¬ Stops line e :=
        fun h => Bool.false_ne_true (h.not_isSkipped.symm.trans hskipped)
      rcases ih with hok | ⟨before, l, after, e, rfl, hbefore, hl, herror⟩
      · exact .inl hok
      · exact .inr ⟨line :: before, l, after, e, rfl,
          List.forall_mem_cons.mpr ⟨hgood, hbefore⟩, hl, herror⟩
    · rw [readLines_cons_of_statement hline, kept_cons_of_not_isSkipped hspells.not_isSkipped]
      rcases ih with ⟨ss, hss, hall⟩ | ⟨before, l, after, e, rfl, hbefore, hl, herror⟩
      · exact .inl ⟨s :: ss, by rw [hss]; rfl, .cons hspells hall⟩
      · exact .inr ⟨line :: before, l, after, e, rfl,
          List.forall_mem_cons.mpr ⟨fun _ => hspells.not_stops, hbefore⟩, hl, by rw [herror]; rfl⟩
    · exact .inr ⟨[], line, lines, e, rfl, by simp, hstops, hline lines⟩

end Lines

section Sorting

variable {ss : List Statement} {ns : List Nat} {p : Program}

theorem perm_insert (s : Statement) (ts : List Statement) : (insert s ts).Perm (s :: ts) := by
  induction ts with
  | nil => exact .refl _
  | cons t ts ih =>
    rw [insert]
    split
    · exact .refl _
    · exact (ih.cons t).trans (.swap s t ts)

/-- Sorting loses and repeats nothing. -/
theorem perm_sort (ss : List Statement) : (sort ss).Perm ss := by
  induction ss with
  | nil => exact .refl _
  | cons s ss ih => exact (perm_insert s (sort ss)).trans (ih.cons s)

/-- A number that stands at the front again is one of the repeated ones. -/
theorem mem_repeated_self {n a : Nat} {rest : List Nat} :
    n ∈ repeated (a :: a :: rest) ↔ n = a ∨ n ∈ repeated (a :: rest) := by
  rw [repeated, if_pos rfl]
  dsimp only
  split
  · next hhead =>
    refine ⟨.inr, fun h => h.elim (fun hn => ?_) id⟩
    rw [hn]
    exact List.mem_of_head? hhead
  · exact List.mem_cons

/-- In an ascending list the repeated numbers are those that stand at least
twice. -/
theorem mem_repeated (h : ns.Pairwise (· ≤ ·)) (n : Nat) : n ∈ repeated ns ↔ 2 ≤ ns.count n := by
  induction ns with
  | nil => simp [repeated]
  | cons a ns ih =>
    obtain ⟨ha, hns⟩ := List.pairwise_cons.mp h
    cases ns with
    | nil =>
      refine iff_of_false List.not_mem_nil fun h => ?_
      exact Nat.not_succ_le_self 1 (h.trans List.count_le_length)
    | cons b ns =>
      by_cases hab : a = b
      · subst hab
        rw [mem_repeated_self, ih hns]
        by_cases hn : n = a
        · refine iff_of_true (.inl hn) ?_
          rw [hn, List.count_cons_self, List.count_cons_self]
          omega
        · simp [hn, Ne.symm hn]
      · have hfront : ∀ x ∈ b :: ns, a < x := by
          intro x hx
          have hlt : a < b := Nat.lt_of_le_of_ne (ha b List.mem_cons_self) hab
          rcases List.mem_cons.mp hx with rfl | hx
          · exact hlt
          · exact Nat.lt_of_lt_of_le hlt ((List.pairwise_cons.mp hns).1 x hx)
        rw [repeated, if_neg hab, ih hns]
        by_cases hn : n = a
        · subst hn
          have hzero : (b :: ns).count n = 0 :=
            List.count_eq_zero.mpr fun hmem => Nat.lt_irrefl n (hfront n hmem)
          rw [List.count_cons_self, hzero]
          omega
        · rw [List.count_cons_of_ne (Ne.symm hn)]

/-- Each repeated number is listed once, in ascending order. -/
theorem pairwise_repeated (h : ns.Pairwise (· ≤ ·)) : (repeated ns).Pairwise (· < ·) := by
  induction ns with
  | nil => exact .nil
  | cons a ns ih =>
    obtain ⟨ha, hns⟩ := List.pairwise_cons.mp h
    cases ns with
    | nil => exact .nil
    | cons b ns =>
      rw [repeated]
      split
      · dsimp only
        split
        · exact ih hns
        · next hhead =>
          refine List.pairwise_cons.mpr ⟨fun x hx => ?_, ih hns⟩
          have hle : ∀ y ∈ repeated (b :: ns), a ≤ y := fun y hy =>
            have htwice := (mem_repeated hns y).mp hy
            ha y (List.count_pos_iff.mp (Nat.lt_of_lt_of_le Nat.two_pos htwice))
          -- the first of them is not `a`, and the others are greater than the first
          cases hothers : repeated (b :: ns) with
          | nil => simp [hothers] at hx
          | cons y ys =>
            have hlist := ih hns
            rw [hothers] at hhead hx hle hlist
            have hy : a < y := Nat.lt_of_le_of_ne (hle y List.mem_cons_self)
              fun heq => hhead (by rw [heq]; rfl)
            rcases List.mem_cons.mp hx with rfl | hx
            · exact hy
            · exact Nat.lt_trans hy ((List.pairwise_cons.mp hlist).1 x hx)
      · exact ih hns

theorem count_sort (n : Nat) (ss : List Statement) :
    ((sort ss).map Statement.number).count n = (ss.map Statement.number).count n :=
  ((perm_sort ss).map Statement.number).count_eq n

theorem pairwise_numbers_sort (ss : List Statement) :
    ((sort ss).map Statement.number).Pairwise (· ≤ ·) :=
  List.pairwise_map.mpr (pairwise_sort ss)

theorem nodup_numbers (p : Program) : (p.statements.map Statement.number).Nodup :=
  (List.pairwise_map.mpr p.ascending).imp Nat.ne_of_lt

/-- Statements have one ascending order at most. -/
theorem sort_eq_of_perm (h : p.statements.Perm ss) : sort ss = p.statements := by
  have hsorted : (sort ss).Perm p.statements := (perm_sort ss).trans h.symm
  refine hsorted.eq_of_pairwise (fun a b ha hb hab hba => ?_) (pairwise_sort ss)
    (p.ascending.imp Nat.le_of_lt)
  exact List.inj_on_of_nodup_map p.nodup_numbers (hsorted.subset ha) hb (Nat.le_antisymm hab hba)

/-- The statements make a program exactly if their numbers are distinct, and it
holds nothing else. -/
theorem ofStatements_eq_ok_iff : ofStatements ss = .ok p ↔ p.statements.Perm ss := by
  simp only [ofStatements]
  refine ⟨fun h => ?_, fun h => ?_⟩
  · split at h
    · cases h
      exact perm_sort ss
    · cases h
  · have hsort := sort_eq_of_perm h
    have hnone : repeated ((sort ss).map Statement.number) = [] := by
      refine List.eq_nil_iff_forall_not_mem.mpr fun n hn => ?_
      have htwice := (mem_repeated (pairwise_numbers_sort ss) n).mp hn
      rw [hsort] at htwice
      have honce := List.nodup_iff_count_le_one.mp p.nodup_numbers n
      omega
    rw [dif_pos hnone]
    obtain ⟨statements, _⟩ := p
    exact congrArg Except.ok (by cases hsort; rfl)

/-- Otherwise the fault lists the numbers that stand twice. -/
theorem ofStatements_eq_error {f : Fault} (h : ofStatements ss = .error f) :
    ∃ numbers, f = .duplicateLines numbers ∧ numbers ≠ [] ∧ numbers.Pairwise (· < ·) ∧
      ∀ n, n ∈ numbers ↔ 2 ≤ (ss.map Statement.number).count n := by
  simp only [ofStatements] at h
  split at h
  · cases h
  · next hne =>
    cases h
    refine ⟨_, rfl, hne, pairwise_repeated (pairwise_numbers_sort ss), fun n => ?_⟩
    rw [mem_repeated (pairwise_numbers_sort ss), count_sort]

end Sorting

section Loading

variable {lines lines' : List String} {ss : List Statement} {r : Except Abort Program}
  {p : Program}

theorem denotes_load (lines : List String) : Denotes lines (load lines) := by
  unfold load
  rcases readLines_cases lines with
    ⟨ss, hread, hspells⟩ | ⟨before, line, after, e, hlines, hbefore, hline, hread⟩
  · rw [hread]
    change Denotes lines ((ofStatements ss).mapError .fault)
    cases hss : ofStatements ss with
    | ok p => exact .program hspells (ofStatements_eq_ok_iff.mp hss)
    | error f =>
      obtain ⟨numbers, rfl, hne, hascending, hmem⟩ := ofStatements_eq_error hss
      exact .repeats hspells hne hascending hmem
  · rw [hread]
    exact .stopped hlines hbefore hline

/-- What stops the loading at a line is determined by the line. -/
theorem Stops.unique {line : String} {e e' : Abort} (h : Stops line e) (h' : Stops line e') :
    e = e' := by
  cases h with
  | malformed h =>
    cases h' with
    | malformed => rfl
    | oversized h' =>
      obtain ⟨digits, rest, hparts, rfl, hlong⟩ := h'
      exact absurd (h.2 digits rest hparts).1 (Nat.not_le_of_lt hlong)
  | oversized h =>
    obtain ⟨digits, rest, hparts, rfl, hlong⟩ := h
    cases h' with
    | malformed h' => exact absurd (h'.2 digits rest hparts).1 (Nat.not_le_of_lt hlong)
    | oversized h' =>
      obtain ⟨digits', rest', hparts', rfl, -⟩ := h'
      rw [← hparts.cut.1, hparts'.cut.1]

/-- The first line that stops the loading is determined by the lines. -/
theorem first_stop_unique {before before' after after' : List String} {line line' : String}
    {e e' : Abort} (h : before ++ line :: after = before' ++ line' :: after')
    (hbefore : ∀ l ∈ before, ∀ e, ¬ Stops l e) (hline : Stops line e)
    (hbefore' : ∀ l ∈ before', ∀ e, ¬ Stops l e) (hline' : Stops line' e') : e = e' := by
  induction before generalizing before' with
  | nil =>
    cases before' with
    | nil => exact hline.unique ((List.cons.inj h).1 ▸ hline')
    | cons l before' =>
      exact absurd ((List.cons.inj h).1 ▸ hline) (hbefore' l List.mem_cons_self e)
  | cons l before ih =>
    cases before' with
    | nil => exact absurd ((List.cons.inj h).1 ▸ hline') (hbefore l List.mem_cons_self e')
    | cons l' before' =>
      exact ih (List.cons.inj h).2 (List.forall_mem_cons.mp hbefore).2
        (List.forall_mem_cons.mp hbefore').2

/-- Where every kept line spells a statement, those statements are read. -/
theorem load_of_spells (h : List.Forall₂ Spells (kept lines) ss) :
    load lines = (ofStatements ss).mapError .fault := by
  unfold load
  rcases readLines_cases lines with
    ⟨ss', hread, hspells⟩ | ⟨before, line, after, e, hlines, -, hline, -⟩
  · have hss : ss' = ss :=
      List.right_unique_forall₂' (fun _ _ _ hs ht => hs.unique ht) hspells h
    rw [hread, hss]
  · exact absurd h (hline.not_forall₂ (by simp [hlines]))

theorem load_of_denotes (h : Denotes lines r) : load lines = r := by
  cases h with
  | @stopped before after line e hlines hbefore hline =>
    rcases readLines_cases lines with
      ⟨ss, -, hspells⟩ | ⟨before', line', after', e', hlines', hbefore', hline', hread⟩
    · exact absurd hspells (hline.not_forall₂ (by simp [hlines]))
    · rw [load, hread,
        first_stop_unique (hlines.symm.trans hlines') hbefore hline hbefore' hline']
  | @repeats ss numbers hspells hne hascending hmem =>
    rw [load_of_spells hspells]
    cases hss : ofStatements ss with
    | ok p =>
      obtain ⟨n, hn⟩ := List.exists_mem_of_ne_nil numbers hne
      have htwice := (hmem n).mp hn
      have hperm := (ofStatements_eq_ok_iff.mp hss).map Statement.number
      have honce := List.nodup_iff_count_le_one.mp p.nodup_numbers n
      rw [hperm.count_eq] at honce
      omega
    | error f =>
      obtain ⟨numbers', rfl, -, hascending', hmem'⟩ := ofStatements_eq_error hss
      rw [hascending'.eq_of_mem_iff hascending fun n => (hmem' n).trans (hmem n).symm]
      rfl
  | program hspells hperm =>
    rw [load_of_spells hspells, ofStatements_eq_ok_iff.mpr hperm]
    rfl

theorem load_eq_iff_denotes : load lines = r ↔ Denotes lines r :=
  ⟨fun h => h ▸ denotes_load lines, load_of_denotes⟩

/-- The same lines in another order denote the same program. -/
theorem Denotes.perm (h : Denotes lines (.ok p)) (hperm : lines.Perm lines') :
    Denotes lines' (.ok p) := by
  cases h with
  | program hspells hss =>
    obtain ⟨ss', hspells', hperm'⟩ :=
      List.perm_comp_forall₂ (hperm.symm.filter fun line => !isSkipped line) hspells
    exact .program hspells' (hss.trans hperm'.symm)

/-- Loading yields what the lines denote. The first line that is of another form or has
too many digits is a fault, or the host breaks off there. Otherwise there is a fault that
lists the numbers that stand twice, or else the program of the kept lines in the order
of their numbers. Whether it yields a program, and which one, does not depend on the
order of the lines. -/
theorem load_denotes (lines : List String) :
    (∀ r, load lines = r ↔ Denotes lines r) ∧
      ∀ lines', lines.Perm lines' → ∀ p, load lines = .ok p ↔ load lines' = .ok p := by
  refine ⟨fun r => load_eq_iff_denotes, fun lines' hperm p => ⟨fun h => ?_, fun h => ?_⟩⟩
  · exact load_of_denotes ((load_eq_iff_denotes.mp h).perm hperm)
  · exact load_of_denotes ((load_eq_iff_denotes.mp h).perm hperm.symm)

/-- Two statements behind a blank line and a number alone, one of them with its
number in other digits. -/
theorem load_denotes_at_shuffledLines :
    let lines := ["٣٠ PRINT A", " ", "7", " 010  LET A = 1 "]
    let p : Program := ⟨[⟨10, "LET A = 1", by decide⟩, ⟨30, "PRINT A", by decide⟩], by decide⟩
    lines.Perm lines.reverse ∧ Denotes lines (.ok p) ∧ load lines.reverse = .ok p := by
  intro lines p
  have hload : load lines = .ok p := by decide +kernel
  have hperm : lines.Perm lines.reverse := lines.reverse_perm.symm
  obtain ⟨hdenotes, horder⟩ := load_denotes lines
  exact ⟨hperm, (hdenotes _).mp hload, (horder _ hperm p).mp hload⟩

def overlongLine (n : Nat) : String := String.ofList (LineNumber.overlong n) ++ " " ++ "PRINT 1"

theorem parts_overlongLine (n : Nat) :
    Parts (overlongLine n) (LineNumber.overlong n) "PRINT 1".toList :=
  parts_of_hasEdges (LineNumber.overlong_ne_nil n)
    (fun _ hc => LineNumber.isDigit_of_mem_overlong hc)
    ⟨⟨'P', "RINT 1".toList, rfl, by decide⟩, "PRINT ".toList, '1', rfl, by decide⟩

/-- A line of the right form, with a positive number, does not load. -/
theorem load_breaks_off_at_overlongLine :
    Parts (overlongLine 1) (LineNumber.overlong 1) "PRINT 1".toList ∧
      Text.digitsValue (LineNumber.overlong 1) = 1 ∧
      load [overlongLine 1] = .error (.oversized 4301) := by
  have hparts := parts_overlongLine 1
  have hoversized : IsOversized (overlongLine 1) 4301 :=
    ⟨_, _, hparts, LineNumber.length_overlong 1, by decide⟩
  refine ⟨hparts, LineNumber.digitsValue_overlong 1, load_of_denotes ?_⟩
  have hlines : [overlongLine 1] = [] ++ overlongLine 1 :: [] := rfl
  exact .stopped hlines (by simp) (.oversized hoversized)

end Loading

end Program

end LineBasic
