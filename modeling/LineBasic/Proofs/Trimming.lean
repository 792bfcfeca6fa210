import Mathlib.Data.List.Basic
import Mathlib.Data.List.DropRight
import Mathlib.Data.List.TakeWhile
import LineBasic.Proofs.Characters

/-!
Trimming, and texts without blanks at their ends. What is trimmed is either empty
or such a text, so trimming it again changes nothing.
-/

namespace LineBasic.Text

section Edges

variable {cs es : List Char}

theorem hasEdges_of_forall (hne : cs ≠ []) (h : ∀ c ∈ cs, isBlank c = false) : HasEdges cs := by
  constructor
  · obtain ⟨c, rest, rfl⟩ := List.exists_cons_of_ne_nil hne
    exact ⟨c, rest, rfl, h c List.mem_cons_self⟩
  · exact ⟨cs.dropLast, cs.getLast hne, (List.dropLast_concat_getLast hne).symm,
      h _ (List.getLast_mem hne)⟩

/-- What stands between two such texts does not matter. -/
theorem HasEdges.append (hcs : HasEdges cs) (hes : HasEdges es) (ds : List Char) :
    HasEdges (cs ++ (ds ++ es)) := by
  constructor
  · obtain ⟨c, rest, rfl, hc⟩ := hcs.first
    exact ⟨c, rest ++ (ds ++ es), rfl, hc⟩
  · obtain ⟨front, c, rfl, hc⟩ := hes.last
    exact ⟨cs ++ (ds ++ front), c, by simp, hc⟩

theorem HasEdges.trimLeft_append (h : HasEdges cs) (ds : List Char) :
    trimLeft (cs ++ ds) = cs ++ ds := by
  obtain ⟨c, rest, rfl, hc⟩ := h.first
  simp [trimLeft, hc]

theorem HasEdges.exists_mem (h : HasEdges cs) : ∃ c ∈ cs, isBlank c = false := by
  obtain ⟨c, rest, rfl, hc⟩ := h.first
  exact ⟨c, List.mem_cons_self, hc⟩

theorem HasEdges.trimString {s : String} (h : HasEdges s.toList) : trimString s = s := by
  rw [Text.trimString, h.trim, String.ofList_toList]

end Edges

section Trimming

variable {c : Char} {cs blanks rest front : List Char}

/-- What is left of a text starts with no blank. -/
theorem isBlank_of_trimLeft (h : trimLeft cs = c :: rest) : isBlank c = false :=
  stopsAt_dropWhile isBlank cs c (by rw [← trimLeft, h]; rfl)

/-- A text that is not all blank starts at its first character that is not. -/
theorem exists_trimLeft (h : ∃ c ∈ cs, isBlank c = false) :
    ∃ c rest, isBlank c = false ∧ ∀ ds, trimLeft (cs ++ ds) = c :: (rest ++ ds) := by
  obtain ⟨d, hmem, hd⟩ := h
  cases hleft : trimLeft cs with
  | nil =>
    have hblank := List.dropWhile_eq_nil_iff.mp hleft d hmem
    rw [hd] at hblank
    cases hblank
  | cons c rest =>
    refine ⟨c, rest, isBlank_of_trimLeft hleft, fun ds => ?_⟩
    rw [trimLeft, List.dropWhile_append, ← trimLeft, hleft]
    rfl

theorem trimLeft_ne_nil (h : ∃ c ∈ cs, isBlank c = false) : trimLeft cs ≠ [] := by
  obtain ⟨c, rest, -, happend⟩ := exists_trimLeft h
  have hleft := happend []
  rw [List.append_nil] at hleft
  simp [hleft]

theorem trim_trimLeft (cs : List Char) : trim (trimLeft cs) = trim cs :=
  congrArg trimRight (List.dropWhile_idempotent isBlank cs)

theorem trimRight_cons (c : Char) (cs : List Char) : trimRight (c :: cs) =
    if isBlank c = true ∧ trimRight cs = [] then [] else c :: trimRight cs := by
  rw [trimRight]
  split
  · next hnil => simp [hnil]
  · next hcons => simp [hcons]

theorem trimRight_eq_nil_iff : trimRight cs = [] ↔ ∀ c ∈ cs, isBlank c = true := by
  induction cs with
  | nil => simp [trimRight]
  | cons c cs ih => simp [trimRight_cons, ih]

theorem trimRight_append_of_isBlank (h : ∀ c ∈ blanks, isBlank c = true) (cs : List Char) :
    trimRight (cs ++ blanks) = trimRight cs := by
  induction cs with
  | nil => rw [List.nil_append, trimRight_eq_nil_iff.mpr h, trimRight]
  | cons c cs ih => rw [List.cons_append, trimRight_cons, trimRight_cons, ih]

/-- Blanks behind a text are trimmed. -/
theorem trim_append_blanks (h : ∀ c ∈ blanks, isBlank c = true) (cs : List Char) :
    trim (cs ++ blanks) = trim cs := by
  rw [trim, trim, trimLeft, List.dropWhile_append]
  split
  · next hblank =>
    have hnil : trimLeft cs = [] := List.isEmpty_iff.mp hblank
    rw [List.dropWhile_eq_nil_iff.mpr h, hnil]
  · exact trimRight_append_of_isBlank h _

theorem HasEdges.trim_append (hcs : HasEdges cs) (h : ∀ c ∈ blanks, isBlank c = true) :
    Text.trim (cs ++ blanks) = cs := by
  rw [trim_append_blanks h, hcs.trim]

/-- Nothing ends in a blank once it is trimmed. -/
theorem isBlank_of_trimRight (h : trimRight cs = front ++ [c]) : isBlank c = false := by
  induction cs generalizing front with
  | nil => simp [trimRight] at h
  | cons d cs ih =>
    rw [trimRight] at h
    split at h
    · split at h
      · simp at h
      · next hd =>
        have hlast : ([] : List Char) ++ [d] = front ++ [c] := h
        rw [← (List.cons.inj (List.append_inj' hlast rfl).2).1]
        exact Bool.eq_false_iff.mpr hd
    · next e es hright =>
      cases front with
      | nil => simp at h
      | cons f front =>
        exact ih (hright.trans (List.cons.inj h).2)

/-- Blanks in front of a text are trimmed. -/
theorem trim_append_of_isBlank (h : ∀ c ∈ blanks, isBlank c = true) (rest : List Char) :
    trim (blanks ++ rest) = trim rest := by
  rw [trim, trimLeft, List.dropWhile_append_of_pos h]
  rfl

/-- Trimming takes blanks from the front of a text, and then from its end. -/
theorem trim_of_trimLeft (h : trimLeft cs = c :: rest) : trim cs = c :: trimRight rest := by
  rw [trim, h, trimRight_cons, if_neg (by simp [isBlank_of_trimLeft h])]

theorem trim_cons (hc : isBlank c = false) (cs : List Char) :
    trim (c :: cs) = c :: trimRight cs :=
  trim_of_trimLeft (List.dropWhile_cons_of_neg (by simp [hc]))

/-- A text with a character that is no blank is not trimmed away. -/
theorem trim_ne_nil_of_mem (hmem : c ∈ cs) (hc : isBlank c = false) : trim cs ≠ [] := by
  obtain ⟨d, rest, -, happend⟩ := exists_trimLeft ⟨c, hmem, hc⟩
  have hleft : trimLeft cs = d :: rest := by simpa using happend []
  simp [trim_of_trimLeft hleft]

theorem isBlank_of_trim (h : trim cs = front ++ [c]) : isBlank c = false :=
  isBlank_of_trimRight h

theorem hasEdges_trim (h : trim cs ≠ []) : HasEdges (trim cs) where
  first := by
    cases hleft : trimLeft cs with
    | nil => exact absurd (by rw [trim, hleft, trimRight]) h
    | cons c rest => exact ⟨c, trimRight rest, trim_of_trimLeft hleft, isBlank_of_trimLeft hleft⟩
  last := by
    obtain ⟨front, c, hlast⟩ := (List.eq_nil_or_concat' _).resolve_left h
    exact ⟨front, c, hlast, isBlank_of_trim hlast⟩

/-- Trimming takes only blanks from the end of a text. -/
theorem exists_append_trimRight (cs : List Char) :
    ∃ blanks, (∀ c ∈ blanks, isBlank c = true) ∧ cs = trimRight cs ++ blanks := by
  induction cs with
  | nil => exact ⟨[], by simp, rfl⟩
  | cons c cs ih =>
    rw [trimRight_cons]
    split
    · next h => exact ⟨c :: cs, List.forall_mem_cons.mpr ⟨h.1, trimRight_eq_nil_iff.mp h.2⟩, rfl⟩
    · obtain ⟨blanks, hblanks, hcs⟩ := ih
      exact ⟨blanks, hblanks, congrArg (c :: ·) hcs⟩

/-- A text is what is left when it is trimmed, between blanks. -/
theorem exists_append_trim (cs : List Char) :
    ∃ front back, (∀ c ∈ front, isBlank c = true) ∧ (∀ c ∈ back, isBlank c = true) ∧
      cs = front ++ (trim cs ++ back) := by
  obtain ⟨back, hback, hleft⟩ := exists_append_trimRight (trimLeft cs)
  refine ⟨cs.takeWhile isBlank, back, fun c hc => mem_takeWhile hc, hback, ?_⟩
  rw [trim, ← hleft, trimLeft, List.takeWhile_append_dropWhile]

theorem infix_trim (cs : List Char) : trim cs <:+: cs := by
  obtain ⟨front, back, -, -, hcs⟩ := exists_append_trim cs
  exact ⟨front, back, by rw [List.append_assoc, ← hcs]⟩

/-- Something is left of a text exactly if it is not all blank. -/
theorem trim_ne_nil_iff : trim cs ≠ [] ↔ ∃ c ∈ cs, isBlank c = false := by
  constructor
  · intro h
    obtain ⟨c, hmem, hc⟩ := (hasEdges_trim h).exists_mem
    exact ⟨c, (infix_trim cs).subset hmem, hc⟩
  · rintro ⟨c, hmem, hc⟩
    exact trim_ne_nil_of_mem hmem hc

theorem trim_trim (cs : List Char) : trim (trim cs) = trim cs := by
  by_cases h : trim cs = []
  · rw [h]
    rfl
  · exact (hasEdges_trim h).trim

/-- A text that trimming leaves as it is has edges, unless it is empty. -/
theorem hasEdges_of_trimString {s : String} (h : trimString s = s) (hne : s ≠ "") :
    HasEdges s.toList := by
  have htrim : trim s.toList = s.toList := by
    rw [← congrArg String.toList h, trimString, String.toList_ofList, trim_trim]
  have hcs : trim s.toList ≠ [] := by
    rw [htrim]
    exact fun hnil => hne (String.toList_eq_nil_iff.mp hnil)
  rw [← htrim]
  exact hasEdges_trim hcs

end Trimming

end LineBasic.Text
