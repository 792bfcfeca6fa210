import LineBasic.Proofs.Characters

/-!
Upper case is final: no character of a text in upper case has an upper case of its
own. The runs of the table are compared as progressions, each with the upper case of
each, so no code point is looked up.

A variable is bound under the upper case of a name that is in upper case already, and
read under the upper case of the name as it is written. `upper_upper` says that the
two are the same.
-/

namespace LineBasic

namespace Text

structure Progression where
  first : Nat
  last : Nat
  step : Nat

namespace Progression

/-- The code points of a run of the table. A single one is at any distance from
itself. -/
def ofRun (first last step : Nat) : Progression := ⟨first, last, if first = last then 2 else step⟩

def Holds (p : Progression) (n : Nat) : Prop :=
  p.first ≤ n ∧ n ≤ p.last ∧ (n - p.first) % p.step = 0

/-- Whether two progressions are seen to share nothing: one ends before the other, or
the one holds even and the other odd code points. -/
def isApart (p q : Progression) : Bool :=
  Nat.blt p.last q.first || Nat.blt q.last p.first ||
    (Nat.beq p.step 2 && Nat.beq q.step 2 && !Nat.beq (p.first % 2) (q.first % 2))

/-- Whether the code points of a progression are seen to be characters that are their
own upper case. -/
def isFinal (p : Progression) : Bool :=
  (Nat.blt p.last 97 || Nat.blt 122 p.first) &&
    (Nat.blt p.last 0xD800 || Nat.blt 0xDFFF p.first && Nat.blt p.last 0x110000) &&
    upperExpansions.all (fun e => p.isApart (ofRun e.1 e.1 2)) &&
    upperRuns.all fun r => p.isApart (ofRun r.1 r.2.1 r.2.2.1)

variable {p q : Progression} {n first last step : Nat}

theorem holds_ofRun (hfirst : first ≤ n) (hlast : n ≤ last) (hstep : (n - first) % step = 0) :
    (ofRun first last step).Holds n := by
  refine ⟨hfirst, hlast, ?_⟩
  simp only [ofRun]
  split
  · next heq => rw [Nat.le_antisymm (Nat.le_trans hlast (Nat.le_of_eq heq.symm)) hfirst, Nat.sub_self]
  · exact hstep

theorem not_holds_of_isApart (h : p.isApart q = true) (hp : p.Holds n) : ¬ q.Holds n := by
  rintro ⟨hfirst', hlast', hstep'⟩
  obtain ⟨hfirst, hlast, hstep⟩ := hp
  simp only [isApart, Bool.or_eq_true, Bool.and_eq_true, Nat.blt_eq, Nat.beq_eq,
    Bool.not_eq_true'] at h
  rcases h with (h | h) | ⟨⟨htwo, htwo'⟩, hparity⟩
  · omega
  · omega
  · have hne := Nat.ne_of_beq_eq_false hparity
    rw [htwo] at hstep
    rw [htwo'] at hstep'
    omega

/-- A character in such a progression is its own upper case. -/
theorem upperChar_of_isFinal (h : p.isFinal = true) (hn : p.Holds n) :
    upperChar (Char.ofNat n) = [Char.ofNat n] := by
  have hbounds := hn
  obtain ⟨hfirst, hlast, -⟩ := hbounds
  simp only [isFinal, Bool.and_eq_true, Bool.or_eq_true, Nat.blt_eq] at h
  obtain ⟨⟨⟨hcase, hvalid⟩, hexpansions⟩, hruns⟩ := h
  have htoNat : (Char.ofNat n).toNat = n := by
    have hn : n.isValidChar := by
      unfold Nat.isValidChar
      omega
    rw [Char.ofNat, dif_pos hn]
    rfl
  have hlower : ¬ (97 ≤ n ∧ n ≤ 122) := by omega
  by_cases hascii : n < 128
  · simp only [upperChar, htoNat, hascii, hlower, if_true, if_false]
  · simp only [upperChar, upperBeyondAscii, htoNat, hascii, if_false]
    split
    · next n' cs hfind =>
      have hapart := List.all_eq_true.mp hexpansions _ (List.mem_of_find?_eq_some hfind)
      have heq := List.find?_some hfind
      obtain rfl := eq_of_beq heq
      exact absurd (holds_ofRun (Nat.le_refl _) (Nat.le_refl _) (by simp))
        (not_holds_of_isApart hapart hn)
    · split
      · next lo hi step distance hfind =>
        have hapart := List.all_eq_true.mp hruns _ (List.mem_of_find?_eq_some hfind)
        have hholds := List.find?_some hfind
        simp only [Bool.and_eq_true, decide_eq_true_eq, beq_iff_eq] at hholds
        exact absurd (holds_ofRun hholds.1.1 hholds.1.2 hholds.2)
          (not_holds_of_isApart hapart hn)
      · rfl

end Progression

section Final

open Progression

set_option maxRecDepth 8000 in
/-- The upper cases that are more than one character are final. -/
theorem isFinal_of_expansion :
    ∀ e ∈ upperExpansions, ∀ n ∈ e.2, (ofRun n n 2).isFinal = true := by
  have hall : upperExpansions.all (fun e => e.2.all fun n => (ofRun n n 2).isFinal) = true := by
    decide +kernel
  intro e he n hn
  exact List.all_eq_true.mp (List.all_eq_true.mp hall e he) n hn

set_option maxRecDepth 8000 in
/-- The upper cases of a run are final, and no distance leads below zero. -/
theorem isFinal_of_run : ∀ r ∈ upperRuns, 0 ≤ r.1 + r.2.2.2 ∧
    (ofRun (r.1 + r.2.2.2).toNat (r.2.1 + r.2.2.2).toNat r.2.2.1).isFinal = true := by
  have hall : upperRuns.all (fun r => decide (0 ≤ r.1 + r.2.2.2) &&
      (ofRun (r.1 + r.2.2.2).toNat (r.2.1 + r.2.2.2).toNat r.2.2.1).isFinal) = true := by
    decide +kernel
  intro r hr
  simpa using List.all_eq_true.mp hall r hr

variable {c d : Char}

/-- What a character becomes in upper case is in upper case. -/
theorem upperChar_of_mem (h : d ∈ upperChar c) : upperChar d = [d] := by
  by_cases hself : upperChar c = [c]
  · rw [hself] at h
    rwa [List.mem_singleton.mp h]
  by_cases hascii : c.toNat < 128
  · by_cases hlower : 97 ≤ c.toNat ∧ c.toNat ≤ 122
    · simp only [upperChar, hascii, hlower, if_true, and_self, List.mem_singleton] at h
      have hletters : (ofRun 65 90 1).isFinal = true := by decide +kernel
      rw [h]
      exact upperChar_of_isFinal hletters (holds_ofRun (by omega) (by omega) (Nat.mod_one _))
    · exact absurd (by simp only [upperChar, hascii, hlower, if_true, if_false]) hself
  · simp only [upperChar, hascii, if_false, upperBeyondAscii] at h hself
    split at h
    · next n cs hexpansion =>
      obtain ⟨n, hn, rfl⟩ := List.mem_map.mp h
      have hfinal := isFinal_of_expansion _ (List.mem_of_find?_eq_some hexpansion) n hn
      exact upperChar_of_isFinal hfinal (holds_ofRun (Nat.le_refl _) (Nat.le_refl _) (by simp))
    · next hexpansion =>
      split at h
      · next lo hi step distance hrun =>
        obtain ⟨hzero, hfinal⟩ := isFinal_of_run _ (List.mem_of_find?_eq_some hrun)
        have hholds := List.find?_some hrun
        dsimp only at hzero hfinal
        simp only [Bool.and_eq_true, decide_eq_true_eq, beq_iff_eq] at hholds
        obtain ⟨⟨hlo, hhi⟩, hstep⟩ := hholds
        have hdistance : (c.toNat + distance).toNat - (lo + distance).toNat = c.toNat - lo := by
          omega
        rw [List.mem_singleton.mp h]
        exact upperChar_of_isFinal hfinal
          (holds_ofRun (by omega) (by omega) (by rw [hdistance, hstep]))
      · next hrun => exact absurd (by simp only [hexpansion, hrun]) hself

theorem upper_of_forall {cs : List Char} (h : ∀ d ∈ cs, upperChar d = [d]) : upper cs = cs := by
  induction cs with
  | nil => rfl
  | cons c cs ih =>
    obtain ⟨hc, hcs⟩ := List.forall_mem_cons.mp h
    rw [upper, List.flatMap_cons, hc]
    exact congrArg (c :: ·) (ih hcs)

/-- Upper case is final. -/
theorem upper_upper (cs : List Char) : upper (upper cs) = upper cs := by
  refine upper_of_forall fun d hd => ?_
  obtain ⟨c, -, hc⟩ := List.mem_flatMap.mp hd
  exact upperChar_of_mem hc

theorem upperString_upperString (s : String) : upperString (upperString s) = upperString s := by
  simp only [upperString, String.toList_ofList, upper_upper]

/-- The upper case of a character is one character, or an expansion of the table. -/
theorem upperChar_cases (c : Char) : (∃ d, upperChar c = [d]) ∨
    ∃ e ∈ upperExpansions, upperChar c = e.2.map Char.ofNat := by
  by_cases hascii : c.toNat < 128
  · left
    simp only [upperChar, hascii, if_true]
    split <;> exact ⟨_, rfl⟩
  · simp only [upperChar, hascii, if_false, upperBeyondAscii]
    split
    · next hexpansion => exact .inr ⟨_, List.mem_of_find?_eq_some hexpansion, rfl⟩
    · left
      split <;> exact ⟨_, rfl⟩

/-- A text whose upper case holds no expansion is put into upper case letter by letter. -/
theorem map_upperChar_of_upper {cs word : List Char} (h : upper cs = word)
    (hword : ∀ e ∈ upperExpansions, ¬ e.2.map Char.ofNat <:+: word) :
    cs.map upperChar = word.map ([·]) := by
  induction cs generalizing word with
  | nil =>
    subst h
    rfl
  | cons c cs ih =>
    have hcons : upperChar c ++ upper cs = word := h
    rcases upperChar_cases c with ⟨d, hd⟩ | ⟨e, he, hexpansion⟩
    · rw [hd] at hcons
      subst hcons
      have hrest := ih rfl fun e he hin => hword e he (hin.trans (List.suffix_cons d _).isInfix)
      rw [List.map_cons, hd, hrest]
      rfl
    · refine absurd ?_ (hword e he)
      rw [← hexpansion, ← hcons]
      exact (List.prefix_append _ _).isInfix

end Final

end Text

end LineBasic
