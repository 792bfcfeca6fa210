import LineBasic.Proofs.Shortcuts
import LineBasic.Proofs.Steps

/-!
Printed numbers are read back. The text of a finite number is read as that number again,
whether it is written in full, with a point or with a power of ten; only zero loses its
sign. So it does not matter whether a number is kept, or printed and typed, or filled into
a condition, and no two numbers other than zeros are printed alike.
-/

namespace LineBasic

open Binary64

def withoutZeroSign (x : Float) : Float := if x = -0 then 0 else x

section Reading

variable {x y : Float} {cs : List Char} {negative : Bool} {m : Nat} {e : Int}

theorem negativeZero_eq : (-0 : Float) = ofMagnitude true 0 := by decide +kernel

/-- What a literal is read as in an expression, it is read as by itself. -/
theorem readTrimmedNumber?_of_readLiteral? (h : readLiteral? cs = some x) :
    readTrimmedNumber? cs = some x := by
  unfold readLiteral? at h
  unfold readTrimmedNumber?
  have hsigned : Numeral.signedValue true = fun x => -x.value := funext Numeral.signedValue_true
  split at h
  · rwa [hsigned]
  · next hminus =>
    split
    · next cs => exact absurd rfl (hminus cs)
    · rw [Numeral.ofText?_cons_eq_none (by decide) (by decide)] at h
      cases h
    · exact h

/-- The literal of a finite number is what the number is printed as, and is that of a
number which is read back. -/
theorem readsBack_of_finite (h : decode x = .finite negative m e) :
    (Value.number (withoutZeroSign x)).ReadsBack ∧
      (Value.number (withoutZeroSign x)).literal = numberText x := by
  unfold withoutZeroSign
  split
  · next hzero =>
    subst hzero
    exact ⟨by decide +kernel, by decide +kernel⟩
  · next hzero =>
    rw [negativeZero_eq] at hzero
    exact ⟨readsBack_of_decode (by simp [h]) hzero, by simp only [Value.literal, h]⟩

theorem readTrimmedNumber?_numberText (h : decode x = .finite negative m e) :
    readTrimmedNumber? (numberText x) = some (withoutZeroSign x) := by
  obtain ⟨hreads, hliteral⟩ := readsBack_of_finite h
  rw [Value.ReadsBack, hliteral] at hreads
  exact readTrimmedNumber?_of_readLiteral? hreads

/-- No blanks are printed around a number. -/
theorem trim_numberText (h : decode x = .finite negative m e) :
    Text.trim (numberText x) = numberText x := by
  obtain ⟨hne, hblanks⟩ := isBlank_of_readTrimmedNumber? (readTrimmedNumber?_numberText h)
  exact (Text.hasEdges_of_forall hne hblanks).trim

theorem readNumber?_formatNumber (h : decode x = .finite negative m e) :
    readNumber? (formatNumber x) = some (withoutZeroSign x) := by
  rw [readNumber?, formatNumber, String.toList_ofList, trim_numberText h,
    readTrimmedNumber?_numberText h]

/-- What is printed for any other number is not read as one. -/
theorem readNumber?_formatNumber_of_not_finite
    (h : ∀ negative m e, decode x ≠ .finite negative m e) :
    readNumber? (formatNumber x) = none := by
  cases hx : decode x with
  | nan =>
    rw [formatNumber, numberText, hx]
    decide +kernel
  | infinite negative =>
    rw [formatNumber, numberText, hx]
    cases negative <;> decide +kernel
  | finite negative m e => exact absurd hx (h negative m e)

/-- Numbers that are printed alike are the same, unless they are zeros. -/
theorem eq_of_formatNumber_eq (h : decode x = .finite negative m e) (hzero : x ≠ 0)
    (hnegative : x ≠ -0) (heq : formatNumber x = formatNumber y) : x = y := by
  have hread := readNumber?_formatNumber h
  rw [heq, withoutZeroSign, if_neg hnegative] at hread
  by_cases hy : ∀ negative m e, decode y ≠ .finite negative m e
  · rw [readNumber?_formatNumber_of_not_finite hy] at hread
    cases hread
  · push Not at hy
    obtain ⟨negative', m', e', hy⟩ := hy
    rw [readNumber?_formatNumber hy, withoutZeroSign] at hread
    split at hread
    · cases hread
      exact absurd rfl hzero
    · cases hread
      rfl

/-- The text of a number is a condition with the number as its value. -/
theorem exists_tree_of_formatNumber (h : decode x = .finite negative m e) :
    ∃ tree, Expr.ofCondition? (formatNumber x).toList = some tree ∧
      ∀ env, tree.eval env = pure (.number (withoutZeroSign x)) := by
  obtain ⟨hreads, hliteral⟩ := readsBack_of_finite h
  obtain ⟨hcuts, tree, -, hderives, heval⟩ := hreads.exists_tree
  refine ⟨tree, ?_, heval⟩
  rw [formatNumber, String.toList_ofList, ← hliteral, Expr.ofCondition?, Expr.parse?,
    hcuts.tokens?, Option.bind_some]
  exact Expr.ofTokens?_eq_some_iff.mpr hderives.of_sign

end Reading

namespace PrintItem

/-- A single argument prints its value. -/
theorem line_singleton {env : Environment} {item : PrintItem} {v : Value} {g g' : Generator}
    (h : (evaluate env item.text).run.run g = (.ok v, g')) :
    (line env false [item]).run.run g = (.ok v.display, g') := by
  have hempty : (line env (item.separator = some .comma) []).run.run g' = (.ok "", g') := rfl
  have hpure (s : String) : (pure s : Eval Fault String).run.run g' = (.ok s, g') := rfl
  rw [line, run_run_bind, h]
  simp only [run_run_bind, hempty, hpure]
  simp

end PrintItem

namespace Interpreter

/-- An answer that is a number binds the number. -/
theorem resume_of_number {i : Interpreter} {p : Pending} {answer : String} {x : Float}
    (hwaiting : i.status = .waiting) (hp : i.pending = some p) (hname : isName p.name.toList = true)
    (hread : readNumber? answer = some x) :
    (i.resume answer).value.1 = none ∧
      (i.resume answer).value.2.machine.environment.get p.name = .ok (.number x) := by
  obtain ⟨environment, hset⟩ := i.machine.environment.exists_set (.number x) hname
  have hvalue : answerValue (Text.trim answer.toList) = .number x := by
    rw [answerValue, ← readNumber?, hread]
  have hget := Environment.get_of_set hset rfl
  obtain ⟨hresume, -⟩ := resume_of_set hwaiting hp (hvalue ▸ hset)
  rw [hresume, value_moveTo]
  refine ⟨rfl, ?_⟩
  split <;> exact hget

end Interpreter

/-- Printed numbers are read back. The text of a finite number is read as that number,
zero without its sign. PRINT outputs it, INPUT binds the number if it is the answer, and
where a condition names a variable with the number the text stands for it and has it as
its value. No other number is printed like a number that is not zero. -/
theorem printed_numbers_read_back {x : Float} {negative : Bool} {m : Nat} {e : Int}
    (hfinite : decode x = .finite negative m e) :
    readNumber? (formatNumber x) = some (withoutZeroSign x) ∧
      (∀ (env : Environment) (item : PrintItem) (g g' : Generator),
        (PrintItem.evaluate env item.text).run.run g = (.ok (.number x), g') →
          (PrintItem.line env false [item]).run.run g = (.ok (formatNumber x), g')) ∧
      (∀ (i : Interpreter) (p : Pending), i.status = .waiting → i.pending = some p →
        isName p.name.toList = true → (i.resume (formatNumber x)).value.1 = none ∧
          (i.resume (formatNumber x)).value.2.machine.environment.get p.name =
            .ok (.number (withoutZeroSign x))) ∧
      (∀ (env : Environment) (cs : List Char), env.get? (String.ofList cs) = some (.number x) →
        Condition.substitutePiece env (.word cs) = (formatNumber x).toList) ∧
      (∃ tree, Expr.ofCondition? (formatNumber x).toList = some tree ∧
        ∀ env, tree.eval env = pure (.number (withoutZeroSign x))) ∧
      ∀ y, x ≠ 0 → x ≠ -0 → formatNumber x = formatNumber y → x = y := by
  have hread := readNumber?_formatNumber hfinite
  refine ⟨hread, fun env item g g' h => PrintItem.line_singleton h, fun i p hwaiting hp hname =>
    Interpreter.resume_of_number hwaiting hp hname hread, fun env cs hbound => ?_,
    exists_tree_of_formatNumber hfinite, fun y => eq_of_formatNumber_eq hfinite⟩
  simp only [Condition.substitutePiece, hbound, Value.literal, hfinite, formatNumber,
    String.toList_ofList]

/-- The greatest integer that is written in full, the next number, a decimal, and the
least number with its sign; and zero without its sign. -/
theorem printed_numbers_read_back_at_boundaries :
    formatNumber 999999999999999868928 = "999999999999999868928" ∧
      readNumber? "999999999999999868928" = some 999999999999999868928 ∧
      formatNumber 1e21 = "1e+21" ∧ readNumber? "1e+21" = some 1e21 ∧
      formatNumber 0.1 = "0.1" ∧ readNumber? "0.1" = some 0.1 ∧
      formatNumber (-5e-324) = "-5e-324" ∧ readNumber? "-5e-324" = some (-5e-324) ∧
      readNumber? (formatNumber (-0)) = some 0 := by
  have hlast : decode 999999999999999868928 = .finite false 7629394531249999 17 := by
    decide +kernel
  have hfirst : decode 1e21 = .finite false 7629394531250000 17 := by decide +kernel
  have htenth : decode 0.1 = .finite false 0x1999999999999a (-56) := by decide +kernel
  have hleast : decode (-5e-324) = .finite true 1 (-1074) := by decide +kernel
  have hzero : decode (-0) = .finite true 0 (-1074) := by decide +kernel
  have hlastText : formatNumber 999999999999999868928 = "999999999999999868928" := by
    decide +kernel
  have hfirstText : formatNumber 1e21 = "1e+21" := by decide +kernel
  have htenthText : formatNumber 0.1 = "0.1" := by decide +kernel
  have hleastText : formatNumber (-5e-324) = "-5e-324" := by decide +kernel
  have hlastRead := (printed_numbers_read_back hlast).1
  have hfirstRead := (printed_numbers_read_back hfirst).1
  have htenthRead := (printed_numbers_read_back htenth).1
  have hleastRead := (printed_numbers_read_back hleast).1
  rw [hlastText, withoutZeroSign, if_neg (by decide +kernel)] at hlastRead
  rw [hfirstText, withoutZeroSign, if_neg (by decide +kernel)] at hfirstRead
  rw [htenthText, withoutZeroSign, if_neg (by decide +kernel)] at htenthRead
  rw [hleastText, withoutZeroSign, if_neg (by decide +kernel)] at hleastRead
  exact ⟨hlastText, hlastRead, hfirstText, hfirstRead, htenthText, htenthRead, hleastText,
    hleastRead, (printed_numbers_read_back hzero).1⟩

end LineBasic
