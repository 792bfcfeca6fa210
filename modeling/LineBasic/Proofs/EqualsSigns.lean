import Mathlib.Algebra.BigOperators.Group.List.Basic
import LineBasic.Proofs.Substitution

/-!
Equals signs of a condition. A sign stands alone if it is outside the literals and no part of
a longer operator. The signs that stand alone are doubled and nothing else is changed, so no
sign stands alone in what is written, the literals keep their content, and writing it again
changes nothing.
-/

namespace LineBasic

open Text

namespace Condition

structure StandsAlone (before after : List Char) : Prop where
  outside : Even (before.count '"')
  before : ∀ c ∈ before.getLast?, c ∉ ['<', '>', '!', '=']
  after : after.head? ≠ some '='

instance (before after : List Char) : Decidable (StandsAlone before after) :=
  decidable_of_iff
    (Even (before.count '"') ∧ (∀ c ∈ before.getLast?, c ∉ ['<', '>', '!', '=']) ∧
      after.head? ≠ some '=')
    ⟨fun ⟨houtside, hbefore, hafter⟩ => ⟨houtside, hbefore, hafter⟩,
      fun h => ⟨h.outside, h.before, h.after⟩⟩

def IsDoubled (cs : List Char) : Prop :=
  ∀ before after, cs = before ++ '=' :: after → ¬ StandsAlone before after

/-- What is written for a character at a place of a text: the character, and one equals sign
more if it is one that stands alone. -/
def doubledAt (cs : List Char) : Char × Nat → List Char
  | (c, k) => if c = '=' ∧ StandsAlone (cs.take k) (cs.drop (k + 1)) then [c, '='] else [c]

section Places

variable {before after cs : List Char} {last : Option Char} {x : Char × Nat}

theorem any_bindsEquals_eq_false_iff :
    last.any bindsEquals = false ↔ ∀ c ∈ last, c ∉ ['<', '>', '!', '='] := by
  cases last <;> simp [bindsEquals, and_assoc]

theorem standsAlone_iff : StandsAlone before after ↔ quotedAfter false before = false ∧
    before.getLast?.any bindsEquals = false ∧ after.head? ≠ some '=' := by
  rw [quotedAfter_eq_false_iff, any_bindsEquals_eq_false_iff]
  exact ⟨fun h => ⟨h.outside, h.before, h.after⟩,
    fun ⟨houtside, hbefore, hafter⟩ => ⟨houtside, hbefore, hafter⟩⟩

theorem doubledAt_append (before cs : List Char) (c : Char) :
    doubledAt (before ++ c :: cs) (c, before.length) =
      if c = '=' ∧ StandsAlone before cs then [c, '='] else [c] := by
  have htake : (before ++ c :: cs).take before.length = before := List.take_left
  have hdrop : (before ++ c :: cs).drop (before.length + 1) = cs := by simp
  rw [doubledAt, htake, hdrop]

theorem one_le_length_doubledAt : 1 ≤ (doubledAt cs x).length := by
  rw [doubledAt]
  split <;> exact Nat.succ_le_succ (Nat.zero_le _)

/-- Nothing gets lost. -/
theorem length_le_length_flatMap (cs : List Char) (xs : List (Char × Nat)) :
    xs.length ≤ (xs.flatMap (doubledAt cs)).length := by
  have hone : ∀ n ∈ xs.map fun x => (doubledAt cs x).length, 1 ≤ n := by
    intro n hn
    obtain ⟨x, -, rfl⟩ := List.mem_map.mp hn
    exact one_le_length_doubledAt
  have hsum := List.length_le_sum_of_one_le _ hone
  rwa [List.length_map, ← List.length_flatMap] at hsum

end Places

section Doubling

variable {before after cs : List Char}

/-- A character is written once or twice, and the next one is judged by it. -/
theorem doubleEqualsAfter_cons (last : Option Char) (quoted : Bool) (c : Char) (cs : List Char) :
    doubleEqualsAfter last quoted (c :: cs) =
      (if c = '=' ∧ quoted = false ∧ last.any bindsEquals = false ∧ cs.head? ≠ some '='
        then [c, '='] else [c]) ++ doubleEqualsAfter (some c) (turn quoted c) cs := by
  rw [doubleEqualsAfter]
  by_cases hquote : c = '"'
  · subst hquote
    simp
  · rw [if_neg hquote, turn_of_ne hquote]
    split
    · next halone =>
      rw [halone.1]
      rfl
    · rfl

theorem head?_doubleEqualsAfter (last : Option Char) (quoted : Bool) (cs : List Char) :
    (doubleEqualsAfter last quoted cs).head? = cs.head? := by
  cases cs with
  | nil => rfl
  | cons c cs =>
    rw [doubleEqualsAfter_cons]
    split <;> rfl

/-- The signs of a part of a text are doubled where they stand alone in the whole text. -/
theorem doubleEqualsAfter_eq_flatMap (before cs : List Char) :
    doubleEqualsAfter before.getLast? (quotedAfter false before) cs =
      (cs.zipIdx before.length).flatMap (doubledAt (before ++ cs)) := by
  induction cs generalizing before with
  | nil => rfl
  | cons c cs ih =>
    have hlast : (before ++ [c]).getLast? = some c := List.getLast?_concat
    have hquoted : quotedAfter false (before ++ [c]) = turn (quotedAfter false before) c :=
      quotedAfter_append false before [c]
    have hrest := ih (before ++ [c])
    rw [hlast, hquoted, List.length_append, List.length_singleton, List.append_assoc,
      List.singleton_append] at hrest
    rw [doubleEqualsAfter_cons, hrest, List.zipIdx_cons, List.flatMap_cons, doubledAt_append]
    simp only [standsAlone_iff]

theorem doubleEquals_eq_flatMap (cs : List Char) :
    doubleEquals cs = cs.zipIdx.flatMap (doubledAt cs) := doubleEqualsAfter_eq_flatMap [] cs

/-- Of the two signs that are written for one, the first is followed by a sign and the second
follows one. All others keep what decides about them. -/
theorem doubleEqualsAfter_doubleEqualsAfter (last : Option Char) (quoted : Bool)
    (cs : List Char) : doubleEqualsAfter last quoted (doubleEqualsAfter last quoted cs) =
      doubleEqualsAfter last quoted cs := by
  induction cs generalizing last quoted with
  | nil => rfl
  | cons c cs ih =>
    have hrest := ih (some c) (turn quoted c)
    rw [doubleEqualsAfter_cons]
    split
    · next halone =>
      obtain ⟨rfl, -, -, -⟩ := halone
      have hturn : turn quoted '=' = quoted := turn_of_ne (by decide) quoted
      rw [hturn] at hrest ⊢
      simp [doubleEqualsAfter_cons, hturn, bindsEquals, hrest]
    · next hbound =>
      rw [List.singleton_append, doubleEqualsAfter_cons, head?_doubleEqualsAfter, if_neg hbound,
        hrest, List.singleton_append]

/-- Where doubling changes nothing no equals sign stands alone: the text would be longer. -/
theorem isDoubled_of_doubleEquals_eq_self (h : doubleEquals cs = cs) : IsDoubled cs := by
  rintro before after rfl halone
  have htwo : doubledAt (before ++ '=' :: after) ('=', before.length) = ['=', '='] := by
    rw [doubledAt_append, if_pos ⟨rfl, halone⟩]
  have hzip : (before ++ '=' :: after).zipIdx =
      before.zipIdx ++ ('=', before.length) :: after.zipIdx (before.length + 1) := by
    rw [List.zipIdx_append, List.zipIdx_cons, Nat.zero_add]
  have hbefore := length_le_length_flatMap (before ++ '=' :: after) before.zipIdx
  have hafter := length_le_length_flatMap (before ++ '=' :: after)
    (after.zipIdx (before.length + 1))
  have hlength := congrArg List.length h
  rw [doubleEquals_eq_flatMap, hzip, List.flatMap_append, List.flatMap_cons, htwo] at hlength
  simp only [List.length_append, List.length_cons, List.length_nil, List.length_zipIdx]
    at hbefore hafter hlength
  omega

/-- The literals stay, whether a text starts outside of them or inside one. -/
theorem literals_doubleEqualsAfter (last : Option Char) (cs : List Char) :
    literals (doubleEqualsAfter last false cs) = literals cs ∧
      literals ('"' :: doubleEqualsAfter last true cs) = literals ('"' :: cs) := by
  induction cs generalizing last with
  | nil => exact ⟨rfl, rfl⟩
  | cons c cs ih =>
    obtain ⟨houtside, hinside⟩ := ih (some c)
    rw [doubleEqualsAfter_cons, doubleEqualsAfter_cons last true]
    by_cases hc : c = '"'
    · subst hc
      have hempty (rest : List Char) : literals ('"' :: '"' :: rest) = [] :: literals rest :=
        literals_quoted List.not_mem_nil rest
      simp [hempty, houtside, hinside]
    · have hskip {w : List Char} (hw : ∀ d ∈ w, d = c ∨ d = '=') (rest : List Char) :
          literals (w ++ rest) = literals rest := by
        refine literals_append_of_notMem (fun hmem => ?_) rest
        rcases hw _ hmem with rfl | heq
        · exact hc rfl
        · cases heq
      rw [turn_of_ne hc, turn_of_ne hc]
      constructor
      · calc literals (_ ++ doubleEqualsAfter (some c) false cs)
          _ = literals (doubleEqualsAfter (some c) false cs) := hskip (by split <;> simp) _
          _ = literals cs := houtside
          _ = literals (c :: cs) := (hskip (w := [c]) (by simp) cs).symm
      · rw [if_neg (by simp), List.singleton_append, literals_quote_cons hc,
          literals_quote_cons hc, hinside]

end Doubling

/-- No equals sign stands alone once those that do are doubled. The text that is written is the
given one with one sign more next to each of these, and nothing else in it is changed. Its
literals have the same content, and doubling again leaves it as it is. -/
theorem equals_signs_are_doubled_once (cs : List Char) :
    IsDoubled (doubleEquals cs) ∧
      doubleEquals cs = cs.zipIdx.flatMap (doubledAt cs) ∧
      literals (doubleEquals cs) = literals cs ∧
      doubleEquals (doubleEquals cs) = doubleEquals cs := by
  have hagain : doubleEquals (doubleEquals cs) = doubleEquals cs :=
    doubleEqualsAfter_doubleEqualsAfter none false cs
  exact ⟨isDoubled_of_doubleEquals_eq_self hagain, doubleEquals_eq_flatMap cs,
    (literals_doubleEqualsAfter none cs).1, hagain⟩

/-- Signs next to quotes stand alone. Signs in operators that touch, in a row, in a literal and
behind a quote without a partner do not. -/
theorem equals_signs_are_doubled_once_at_touchingSigns :
    let cs := "A=B<=>=C==D=\"x=y\"=\"=z=".toList
    let ds := "A==B<=>=C==D==\"x=y\"==\"=z=".toList
    doubleEquals cs = ds ∧ IsDoubled ds ∧ cs.zipIdx.flatMap (doubledAt cs) = ds ∧
      literals ds = ["x=y".toList, "=z=".toList] ∧ doubleEquals ds = ds := by
  intro cs ds
  obtain ⟨hdoubled, hsigns, hliterals, hagain⟩ := equals_signs_are_doubled_once cs
  have hds : doubleEquals cs = ds := by decide +kernel
  have hcontents : literals cs = ["x=y".toList, "=z=".toList] := by decide +kernel
  rw [hds] at hdoubled hsigns hliterals hagain
  exact ⟨hds, hdoubled, hsigns.symm, hliterals.trans hcontents, hagain⟩

end Condition

end LineBasic
