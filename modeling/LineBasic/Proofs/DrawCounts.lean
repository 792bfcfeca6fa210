import LineBasic.Proofs.Occurrences
import LineBasic.Proofs.RandomNumbers
import LineBasic.Proofs.Shortcuts

/-!
How many random numbers the evaluation of a text draws. RND stands in the tree of a text as often
as in the text outside the literals, so the text alone says how many numbers are drawn at most,
and without the operators that may skip an operand it says how many are drawn on the way to a
value.
-/

namespace LineBasic

section Texts

variable {level : Level} {ts : List Token} {e : Expr}

theorem Builtin.randoms_treeName (cs : List Char) :
    (ofName? (Expr.treeName cs)).elim 0 randoms = if Expr.treeName cs = "RND" then 1 else 0 := by
  have hkey : Text.upperString (Expr.treeName cs) = Expr.treeName cs := by
    rw [Expr.treeName_eq, Text.upperString_upperString]
  rw [ofName?, hkey]
  split
  · rfl
  · split <;> rfl

theorem Token.countP_isNamed (cs : List Char) (name : String) (ts : List Token) :
    (Token.name cs :: ts).countP (isNamed name.toList) =
      ts.countP (isNamed name.toList) + if Expr.treeName cs = name then 1 else 0 := by
  simp [List.countP_cons, isNamed, Expr.treeName_eq_iff]

/-- RND stands in a tree as often as among its tokens. -/
theorem Expr.Derives.randoms_eq (h : Derives level ts e) :
    e.randoms = ts.countP (Token.isNamed "RND".toList) := by
  induction h with
  | number | text => rfl
  | «variable» cs =>
    rw [Token.countP_isNamed, randoms]
    exact (Nat.zero_add _).symm
  | invoke cs =>
    rw [Token.countP_isNamed, randoms, Builtin.randoms_treeName]
    exact (Nat.zero_add _).symm
  | apply cs _ ih =>
    rw [Token.countP_isNamed, randoms, Builtin.randoms_treeName, ih]
    simp [Token.isNamed]
  | parens _ ih => simpa [Token.isNamed] using ih
  | plus _ ih | minus _ ih | not _ ih => simpa [Token.isNamed, randoms] using ih
  | operand _ _ ih => exact ih
  | binary _ _ _ ihleft ihright =>
    simp [randoms, ihleft, ihright, Token.isNamed]

/-- The operators in a tree are those among its tokens. -/
theorem Expr.Derives.mem_of_mem_operators (h : Derives level ts e) {op : BinaryOp}
    (hop : op ∈ e.operators) : .operator op ∈ ts := by
  induction h with
  | number | text | «variable» | invoke => cases hop
  | apply _ _ ih | parens _ ih => simp [ih hop]
  | plus _ ih | minus _ ih | not _ ih => exact List.mem_cons_of_mem _ (ih hop)
  | operand _ _ ih => exact ih hop
  | binary _ _ _ ihleft ihright =>
    simp only [operators, List.mem_cons, List.mem_append] at hop
    rcases hop with rfl | hop | hop
    · simp
    · exact List.mem_append_left _ (ihleft hop)
    · exact List.mem_append_right _ (List.mem_cons_of_mem _ (ihright hop))

end Texts

inductive TextDraws (env : Environment) (cs : List Char) :
    List Float → Except Fault Value → Prop
  | tree {e : Expr} {xs : List Float} {r : Except Failure Value}
      (he : Expr.ofExpression? cs = some e) (h : e.Draws env xs r) :
      TextDraws env cs xs (r.mapError (Failure.toFault (String.ofList cs)))
  | malformed (he : Expr.ofExpression? cs = none) :
      TextDraws env cs [] (.error (.malformedExpression (String.ofList cs)))

/-- Whether evaluating a text from a generator draws so many numbers. -/
def EvaluationDraws (env : Environment) (s : String) (g : Generator) (n : Nat) : Prop :=
  DrawsNext (TextDraws env (Text.trim s.toList)) (evaluate env s) g n

section Evaluations

variable {env : Environment} {s : String} {cs : List Char} {xs ys us vs : List Float}
  {r r' : Except Fault Value} {g : Generator} {n k : Nat}

theorem TextDraws.unique (h : TextDraws env cs xs r) (h' : TextDraws env cs ys r')
    (hsame : xs ++ us = ys ++ vs) : xs = ys ∧ r = r' := by
  cases h with
  | tree he h =>
    cases h' with
    | tree he' h' =>
      obtain rfl := Option.some.inj (he.symm.trans he')
      obtain ⟨rfl, rfl⟩ := h.unique h' hsame
      exact ⟨rfl, rfl⟩
    | malformed he' => exact absurd (he'.symm.trans he) nofun
  | malformed he =>
    cases h' with
    | tree he' => exact absurd (he.symm.trans he') nofun
    | malformed => exact ⟨rfl, rfl⟩

theorem exists_drawsNext_evaluate (env : Environment) (s : String) (g : Generator) :
    ∃ n, EvaluationDraws env s g n := by
  have hdraws : DrawsBy (TextDraws env (Text.trim s.toList)) (evaluate env s) := by
    rw [evaluate, evaluateTrimmed_eq_evaluateByGrammar, evaluateByGrammar]
    split
    · next e he => exact (e.drawsBy_eval env).adapt fun xs r h => .tree he h
    · next he => exact drawsBy_mk_pure (.malformed he)
  exact hdraws g

/-- How many numbers an evaluation draws is certain. -/
theorem EvaluationDraws.unique (h : EvaluationDraws env s g n) (h' : EvaluationDraws env s g k) :
    n = k := by
  have hsame : g.numbers n ++ (g.skip n).numbers k = g.numbers k ++ (g.skip k).numbers n := by
    rw [← Generator.numbers_add, ← Generator.numbers_add, Nat.add_comm]
  rw [← g.length_numbers n, ← g.length_numbers k, (h.1.unique h'.1 hsame).1]

theorem randoms_eq_occurrences {e : Expr}
    (he : Expr.ofExpression? (Text.trim s.toList) = some e) :
    e.randoms = Text.occurrences "RND".toList s.toList := by
  obtain ⟨ts, hts, he⟩ := Option.bind_eq_some_iff.mp he
  have hderives := Expr.ofTokens?_eq_some_iff.mp he
  rw [hderives.randoms_eq, ← hderives.occurrences hts (by decide), Text.occurrences_trim]

theorem operator_outside {e : Expr} (he : Expr.ofExpression? (Text.trim s.toList) = some e)
    {op : BinaryOp} (hop : op ∈ e.operators) :
    op.symbol.toList <:+: Text.outside false s.toList := by
  obtain ⟨ts, hts, he⟩ := Option.bind_eq_some_iff.mp he
  have hmem := (Expr.ofTokens?_eq_some_iff.mp he).mem_of_mem_operators hop
  have hinfix := infix_outside_of_tokens? hts hmem
  have hquote : '"' ∉ op.symbol.toList := by cases op <;> decide
  rw [Token.spelling, Text.outside_of_notMem hquote] at hinfix
  exact hinfix.trans (Text.infix_outside_trim _)

theorem TextDraws.length_le (h : TextDraws env (Text.trim s.toList) xs r) :
    xs.length ≤ Text.occurrences "RND".toList s.toList := by
  cases h with
  | tree he h =>
    rw [← randoms_eq_occurrences he]
    exact h.length_le
  | malformed => exact Nat.zero_le _

theorem TextDraws.length_eq (h : TextDraws env (Text.trim s.toList) xs r) {v : Value}
    (hr : r = .ok v) (hand : ¬ "&&".toList <:+: Text.outside false s.toList)
    (hor : ¬ "||".toList <:+: Text.outside false s.toList) :
    xs.length = Text.occurrences "RND".toList s.toList := by
  cases h with
  | @tree e _ r he h =>
    have hops : ∀ op ∈ e.operators, op ≠ .and ∧ op ≠ .or := by
      intro op hop
      have hinfix := operator_outside he hop
      constructor
      · rintro rfl
        exact hand hinfix
      · rintro rfl
        exact hor hinfix
    rw [← randoms_eq_occurrences he]
    cases r with
    | error => cases hr
    | ok => exact h.length_eq hops rfl
  | malformed => cases hr

end Evaluations

/-- The draws of an evaluation depend on its text. From every generator the evaluation draws a
certain number of the next random numbers, in the order of `Expr.Draws`, also if it fails, and
RND stands in the text at least so often, in any case and outside the literals. If neither of the
operators that may skip an operand stands in the text outside the literals, all evaluations that
come to a value draw the same number of them, whatever is bound and from whatever generator: as
often as RND stands in the text. -/
theorem draws_counted_by_text (s : String) :
    (∀ env g, ∃ n, EvaluationDraws env s g n ∧ (∀ k, EvaluationDraws env s g k → k = n) ∧
      n ≤ Text.occurrences "RND".toList s.toList) ∧
      (¬ "&&".toList <:+: Text.outside false s.toList →
        ¬ "||".toList <:+: Text.outside false s.toList →
        ∀ env env' g g' v v' n n', EvaluationDraws env s g n → EvaluationDraws env' s g' n' →
          ((evaluate env s).run.run g).1 = .ok v → ((evaluate env' s).run.run g').1 = .ok v' →
            n = n' ∧ n' = Text.occurrences "RND".toList s.toList) := by
  refine ⟨fun env g => ?_, fun hand hor env env' g g' v v' n n' h h' hv hv' => ?_⟩
  · obtain ⟨n, hn⟩ := exists_drawsNext_evaluate env s g
    have hle := hn.1.length_le
    rw [Generator.length_numbers] at hle
    exact ⟨n, hn, fun k hk => hk.unique hn, hle⟩
  · have hn := h.1.length_eq hv hand hor
    have hn' := h'.1.length_eq hv' hand hor
    rw [Generator.length_numbers] at hn hn'
    exact ⟨hn.trans hn'.symm, hn'⟩

/-- A text with RND and an operator in a literal, with RND as a function of itself, and with a
variable that is bound to a number or to a text; and a text without any operator of the kind. -/
theorem draws_counted_by_text_at_nestedCalls :
    let s := " \"RND && \" + Rnd(RND) * 0 + X "
    let digit := (Environment.empty.set "x" (.number 1)).toOption.getD .empty
    let letter := (Environment.empty.set "X" (.text "a")).toOption.getD .empty
    EvaluationDraws digit s ⟨#[], 0⟩ 2 ∧ EvaluationDraws letter s ⟨#[7], 0⟩ 2 ∧
      EvaluationDraws .empty "int(RND() * 6)" ⟨#[7], 0⟩ 1 := by
  intro s digit letter
  obtain ⟨hcertain, hcounted⟩ := draws_counted_by_text s
  obtain ⟨n, hn, -⟩ := hcertain digit ⟨#[], 0⟩
  obtain ⟨n', hn', -⟩ := hcertain letter ⟨#[7], 0⟩
  have hdigit : ((evaluate digit s).run.run ⟨#[], 0⟩).1 = .ok (.text "RND && 01") := by
    decide +kernel
  have hletter : ((evaluate letter s).run.run ⟨#[7], 0⟩).1 = .ok (.text "RND && 0a") := by
    decide +kernel
  have htwice : Text.occurrences "RND".toList s.toList = 2 := by decide +kernel
  obtain ⟨rfl, rfl⟩ := hcounted (by decide +kernel) (by decide +kernel) _ _ _ _ _ _ _ _ hn hn'
    hdigit hletter
  rw [htwice] at hn hn'
  obtain ⟨hcertain, hcounted⟩ := draws_counted_by_text "int(RND() * 6)"
  obtain ⟨k, hk, -⟩ := hcertain .empty ⟨#[7], 0⟩
  have hzero : ((evaluate .empty "int(RND() * 6)").run.run ⟨#[7], 0⟩).1 = .ok (.number 0) := by
    decide +kernel
  have honce : Text.occurrences "RND".toList "int(RND() * 6)".toList = 1 := by decide +kernel
  have hfree {w : List Char} (hquote : '"' ∉ w) (hw : ¬ w <:+: "int(RND() * 6)".toList) :
      ¬ w <:+: Text.outside false "int(RND() * 6)".toList :=
    mt (Text.infix_of_infix_outside hquote) hw
  obtain ⟨-, rfl⟩ := hcounted (hfree (by decide) (by decide)) (hfree (by decide) (by decide))
    _ _ _ _ _ _ _ _ hk hk hzero hzero
  rw [honce] at hk
  exact ⟨hn, hn', hk⟩

end LineBasic
