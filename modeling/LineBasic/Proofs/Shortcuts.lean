import LineBasic.Proofs.Assignments
import LineBasic.Proofs.Doubles
import LineBasic.Proofs.Printing

/-!
The shortcuts of evaluation. A text literal and a plain number are recognised before the
grammar is asked, and so is a single variable where it is printed. The grammar gives each
of them the same value: it takes a literal or a numeral as one token and the sign in front
of a numeral as an operator.
-/

namespace LineBasic

/-- Reading a numeral with a minus in front negates its value. -/
theorem Numeral.signedValue_true (x : Numeral) : x.signedValue true = -x.value :=
  (Binary64.neg_ofDecimal x.coefficient x.exponent).symm

/-- The value of a text for which the grammar is not asked: a text literal or a plain
number. -/
def shortcut? (cs : List Char) : Option Value :=
  match literalContent? cs with
  | some content => some (.text (String.ofList content))
  | none => (readTrimmedNumber? cs).map Value.number

def evaluateByGrammar (env : Environment) (cs : List Char) : Eval Fault Value :=
  match Expr.ofExpression? cs with
  | some e => (e.eval env).adapt (Failure.toFault (String.ofList cs))
  | none => throw (.malformedExpression (String.ofList cs))

section Trimmed

variable {env : Environment} {cs : List Char} {v : Value}

/-- Evaluation takes the shortcut where there is one. -/
theorem evaluateTrimmed_eq (env : Environment) (cs : List Char) :
    evaluateTrimmed env cs = (shortcut? cs).elim (evaluateByGrammar env cs) pure := by
  rw [evaluateTrimmed, shortcut?]
  cases literalContent? cs with
  | some content => rfl
  | none =>
    cases readTrimmedNumber? cs with
    | some x => rfl
    | none => rfl

/-- A text made of the tokens of an expression, one directly behind the other, is parsed
as it. -/
theorem Expr.Derives.ofExpression? {ts : List Token} {e : Expr} (h : Derives .sign ts e)
    (hts : ∀ t ∈ ts, t.IsSpelled) : Expr.ofExpression? (ts.flatMap Token.spelling) = some e :=
  (Layout.flatMap_spelling ts).parse? (h.loosen (by decide)) hts

/-- A text with a shortcut is an expression that has the same value whatever is bound. -/
theorem exists_tree_of_shortcut? (h : shortcut? cs = some v) :
    ∃ e, Expr.ofExpression? cs = some e ∧ ∀ env, e.eval env = pure v := by
  have hatom : Level.sign ≠ .atom := by decide
  unfold shortcut? at h
  split at h
  · next content hcontent =>
    obtain ⟨rfl, hinside⟩ := eq_of_literalContent? hcontent
    cases h
    have hderives : Expr.Derives .sign [.text content] (.text (String.ofList content)) :=
      .operand hatom (.text content)
    refine ⟨.text (String.ofList content), ?_, fun _ => rfl⟩
    simpa [Token.spelling] using hderives.ofExpression? (by simpa [Token.IsSpelled] using hinside)
  · obtain ⟨x, hx, rfl⟩ := Option.map_eq_some_iff.mp h
    obtain ⟨y, hy, hcases⟩ := exists_numeral_of_readTrimmedNumber? hx
    have hnumber : Expr.Derives .sign [.number y] (.number y) := .operand hatom (.number y)
    rcases hcases with ⟨rfl, rfl⟩ | ⟨rfl, rfl⟩ | ⟨rfl, rfl⟩
    · refine ⟨.number y, ?_, fun _ => rfl⟩
      simpa [Token.spelling] using hnumber.ofExpression? (by simpa [Token.IsSpelled] using hy)
    · refine ⟨.unary .plus (.number y), ?_, fun _ => rfl⟩
      simpa [Token.spelling, BinaryOp.symbol] using
        hnumber.plus.ofExpression? (by simpa [Token.IsSpelled] using hy)
    · rw [Numeral.signedValue_true]
      refine ⟨.unary .minus (.number y), ?_, fun _ => rfl⟩
      simpa [Token.spelling, BinaryOp.symbol] using
        hnumber.minus.ofExpression? (by simpa [Token.IsSpelled] using hy)

/-- The shortcuts change nothing: every text is evaluated as the grammar says. -/
theorem evaluateTrimmed_eq_evaluateByGrammar (env : Environment) (cs : List Char) :
    evaluateTrimmed env cs = evaluateByGrammar env cs := by
  rw [evaluateTrimmed_eq]
  cases hshortcut : shortcut? cs with
  | none => rfl
  | some v =>
    obtain ⟨e, he, heval⟩ := exists_tree_of_shortcut? hshortcut
    rw [Option.elim_some, evaluateByGrammar, he]
    change pure v = (e.eval env).adapt (Failure.toFault (String.ofList cs))
    rw [heval env]
    rfl

/-- An ASCII name is evaluated by its variable, and RND draws a random number. -/
theorem evaluateTrimmed_of_isNameChar (env : Environment) (hname : isName cs = true)
    (hascii : cs.all isNameChar = true) :
    evaluateTrimmed env cs = if Text.upper cs = "RND".toList then Eval.draw
      else Eval.ofExcept (env.get (String.ofList cs)) := by
  have hget : env.get (Expr.treeName cs) = env.get (String.ofList cs) := by
    simp only [Environment.get, Environment.get?, Expr.treeName_eq, Text.upperString_upperString]
  rw [evaluateTrimmed_eq_evaluateByGrammar, evaluateByGrammar, Expr.ofExpression?_of_isName hname,
    if_pos hascii]
  simp only [Expr.eval, Expr.treeName_eq_iff, hget]
  split
  · rfl
  · cases env.get (String.ofList cs) with
    | ok v => rfl
    | error f => rfl

/-- A single variable is printed as what it is evaluated as. -/
theorem PrintItem.evaluate_of_isNameChar (env : Environment) (hname : isName cs = true)
    (hascii : cs.all isNameChar = true) : PrintItem.evaluate env cs = evaluateTrimmed env cs := by
  rw [evaluateTrimmed_of_isNameChar env hname hascii, PrintItem.evaluate,
    literalContent?_of_isName hname]
  simp only [hname, if_true]

end Trimmed

/-- The shortcuts agree with the grammar. A trimmed text whose value is read off it is
accepted by the grammar, and its tree has that value without a draw, whatever is bound. So
every text has the value, the fault and the draws that the grammar gives it, and printing
an ASCII name has those of evaluating it. -/
theorem shortcuts_agree_with_grammar (env : Environment) (s : String) :
    (∀ v, shortcut? (Text.trim s.toList) = some v → evaluate env s = pure v ∧
      ∃ e, Expr.ofExpression? (Text.trim s.toList) = some e ∧ e.eval env = pure v) ∧
      evaluate env s = evaluateByGrammar env (Text.trim s.toList) ∧
      (isName (Text.trim s.toList) = true → (Text.trim s.toList).all isNameChar = true →
        PrintItem.evaluate env (Text.trim s.toList) = evaluate env s) := by
  refine ⟨fun v hshortcut => ⟨?_, ?_⟩, ?_, fun hname hascii => ?_⟩
  · rw [evaluate, evaluateTrimmed_eq, hshortcut, Option.elim_some]
  · obtain ⟨e, he, heval⟩ := exists_tree_of_shortcut? hshortcut
    exact ⟨e, he, heval env⟩
  · exact evaluateTrimmed_eq_evaluateByGrammar env _
  · exact PrintItem.evaluate_of_isNameChar env hname hascii

/-- A negative number with a power of ten in Devanagari digits, and a variable that is
not bound. -/
theorem shortcuts_agree_with_grammar_at_signedNumber :
    (evaluate .empty " -१.5e2\t" = pure (.number (-150)) ∧
      ∃ e, Expr.ofExpression? "-१.5e2".toList = some e ∧ e.eval .empty = pure (.number (-150))) ∧
      PrintItem.evaluate .empty "x1".toList = evaluate .empty " x1 " := by
  have hnumber : Text.trim " -१.5e2\t".toList = "-१.5e2".toList := by decide +kernel
  have hshortcut : shortcut? (Text.trim " -१.5e2\t".toList) = some (.number (-150)) := by
    decide +kernel
  have hname : Text.trim " x1 ".toList = "x1".toList := by decide +kernel
  obtain ⟨hvalue, -, -⟩ := shortcuts_agree_with_grammar .empty " -१.5e2\t"
  obtain ⟨-, -, hprinted⟩ := shortcuts_agree_with_grammar .empty " x1 "
  have hread := hvalue _ hshortcut
  have hsame := hprinted (by decide +kernel) (by decide +kernel)
  rw [hnumber] at hread
  rw [hname] at hsame
  exact ⟨hread, hsame⟩

end LineBasic
