import LineBasic.Program

/-!
Looking up line numbers. Halving an ascending list finds the place where a number
belongs, and the number stands there if it stands anywhere; so a program finds the
statement with a line number, and no other one.
-/

namespace LineBasic.Program

section Halving

variable {numbers : List Nat} {number low high middle index : Nat}

structure Encloses (numbers : List Nat) (number low high : Nat) : Prop where
  low_le : low ≤ high
  high_le : high ≤ numbers.length
  below : ∀ k (hk : k < numbers.length), k < low → numbers[k] < number
  above : ∀ k (hk : k < numbers.length), high ≤ k → number ≤ numbers[k]

theorem encloses_all (numbers : List Nat) (number : Nat) :
    Encloses numbers number 0 numbers.length where
  low_le := Nat.zero_le _
  high_le := Nat.le_refl _
  below _ _ h := absurd h (Nat.not_lt_zero _)
  above _ hk h := absurd hk (Nat.not_lt_of_le h)

theorem getElem_le_getElem (hascending : numbers.Pairwise (· < ·)) {j k : Nat} (hjk : j ≤ k)
    (hk : k < numbers.length) : numbers[j] ≤ numbers[k] := by
  rcases Nat.lt_or_eq_of_le hjk with hlt | rfl
  · exact Nat.le_of_lt (List.pairwise_iff_getElem.mp hascending j k _ hk hlt)
  · exact Nat.le_refl _

/-- A number belongs behind what is less. -/
theorem Encloses.upper (h : Encloses numbers number low high)
    (hascending : numbers.Pairwise (· < ·)) (hmiddle : middle < high)
    (hlength : middle < numbers.length) (hless : numbers[middle] < number) :
    Encloses numbers number (middle + 1) high where
  low_le := hmiddle
  high_le := h.high_le
  below _ _ hlt :=
    Nat.lt_of_le_of_lt (getElem_le_getElem hascending (Nat.le_of_lt_succ hlt) hlength) hless
  above := h.above

/-- A number belongs in front of what is not less. -/
theorem Encloses.lower (h : Encloses numbers number low high)
    (hascending : numbers.Pairwise (· < ·)) (hlow : low ≤ middle)
    (hlength : middle < numbers.length) (hge : number ≤ numbers[middle]) :
    Encloses numbers number low middle where
  low_le := hlow
  high_le := Nat.le_of_lt hlength
  below := h.below
  above _ hk hle := Nat.le_trans hge (getElem_le_getElem hascending hle hk)

/-- Halving the part that a number belongs in leads to the index where it belongs. -/
theorem encloses_bisect (hascending : numbers.Pairwise (· < ·))
    (h : Encloses numbers number low high) :
    Encloses numbers number (bisect numbers number low high)
      (bisect numbers number low high) := by
  fun_induction bisect numbers number low high with
  | case1 low high hlt middle hany ih =>
    have hmiddle : middle < high := by omega
    have hlength : middle < numbers.length := Nat.lt_of_lt_of_le hmiddle h.high_le
    rw [List.getElem?_eq_getElem hlength, Option.any_some, decide_eq_true_eq] at hany
    exact ih (h.upper hascending hmiddle hlength hany)
  | case2 low high hlt middle hany ih =>
    have hmiddle : middle < high := by omega
    have hlength : middle < numbers.length := Nat.lt_of_lt_of_le hmiddle h.high_le
    rw [List.getElem?_eq_getElem hlength, Option.any_some, decide_eq_true_eq] at hany
    exact ih (h.lower hascending (by omega) hlength (Nat.le_of_not_lt hany))
  | case3 low high hempty =>
    have heq : high = low := Nat.le_antisymm (Nat.le_of_not_lt hempty) h.low_le
    rwa [heq] at h

/-- Where a number stands in an ascending list, there it belongs. -/
theorem bisect_of_getElem? (hascending : numbers.Pairwise (· < ·))
    (h : numbers[index]? = some number) : bisect numbers number 0 numbers.length = index := by
  obtain ⟨hindex, rfl⟩ := List.getElem?_eq_some_iff.mp h
  have hfound := encloses_bisect hascending (encloses_all numbers numbers[index])
  generalize bisect numbers numbers[index] 0 numbers.length = found at hfound
  rcases Nat.lt_trichotomy found index with hlt | heq | hgt
  · have hless := List.pairwise_iff_getElem.mp hascending found index (by omega) hindex hlt
    exact absurd (hfound.above found (by omega) (Nat.le_refl _)) (Nat.not_le_of_lt hless)
  · exact heq
  · exact absurd (hfound.below index hindex hgt) (Nat.lt_irrefl _)

end Halving

section Index

variable {p : Program} {number index : Nat}

theorem pairwise_lineNumbers (p : Program) : p.lineNumbers.Pairwise (· < ·) :=
  List.pairwise_map.mpr p.ascending

theorem lineNumbers_getElem?_eq_some_iff : p.lineNumbers[index]? = some number ↔
    ∃ s, p.statementAt? index = some s ∧ s.number = number := by
  rw [lineNumbers, List.getElem?_map, Option.map_eq_some_iff, statementAt?]

/-- What is looked up is the index of the statement with the line number. -/
theorem indexOf?_eq_some_iff : p.indexOf? number = some index ↔
    ∃ s, p.statementAt? index = some s ∧ s.number = number := by
  have hsize : p.size = p.lineNumbers.length := (List.length_map _).symm
  rw [← lineNumbers_getElem?_eq_some_iff, indexOf?, hsize]
  constructor
  · intro h
    split at h
    · next hfound =>
      cases h
      exact hfound
    · cases h
  · intro h
    rw [bisect_of_getElem? p.pairwise_lineNumbers h, if_pos h]

/-- Nothing is found for a line number that no statement has. -/
theorem indexOf?_eq_none_iff :
    p.indexOf? number = none ↔ ∀ s ∈ p.statements, s.number ≠ number := by
  simp only [Option.eq_none_iff_forall_ne_some, ne_eq, indexOf?_eq_some_iff,
    List.mem_iff_getElem?, statementAt?]
  constructor
  · rintro h s ⟨k, hk⟩ hnumber
    exact h k ⟨s, hk, hnumber⟩
  · rintro h k ⟨s, hk, hnumber⟩
    exact h s ⟨k, hk⟩ hnumber

end Index

end LineBasic.Program
