import LineBasic.Proofs.Conditions
import LineBasic.Proofs.Decimals

/-!
Values as text. The literal of a number is read as that number again, up to
the sign of zero, and the literal of a text as that text if it holds no double
quote. For no other value does the literal stand for the value.
-/

namespace LineBasic

open Binary64

section Numbers

variable {x : Float} {m : Nat} {e : Int}

theorem Numeral.ofText?_spelling {x : Numeral} (hx : x.IsSpelled) :
    ofText? x.spelling = some x := by
  have hscan := scan?_spelling_append hx (atBreak_nil.stopsAt (by decide))
  rw [List.append_nil] at hscan
  rw [ofText?, hscan]

/-- A numeral starts with a digit or a point. -/
theorem Numeral.ofText?_cons_eq_none {c : Char} (hdigit : Text.isDigit c = false) (hpoint : c ≠ '.')
    (cs : List Char) : ofText? (c :: cs) = none := by
  rw [ofText?, scan?, List.takeWhile_cons_of_neg (by simp [hdigit]),
    List.dropWhile_cons_of_neg (by simp [hdigit])]
  simp [hpoint]

theorem readLiteral?_spelling {x : Numeral} (hx : x.IsSpelled) :
    readLiteral? x.spelling = some x.value := by
  have hread := Numeral.ofText?_spelling hx
  unfold readLiteral?
  split
  · next cs hcs =>
    rw [hcs, Numeral.ofText?_cons_eq_none (by decide) (by decide)] at hread
    cases hread
  · rw [hread, Option.map_some]

theorem readLiteral?_minus {x : Numeral} (hx : x.IsSpelled) :
    readLiteral? ('-' :: x.spelling) = some (-x.value) := by
  rw [readLiteral?, Numeral.ofText?_spelling hx, Option.map_some]

theorem magnitudeText_zero (e : Int) : magnitudeText 0 e = ['0'] := by
  have hwhole : wholeNumber? 0 e = some 0 := by
    unfold wholeNumber?
    split
    · rw [Nat.zero_mul]
    · simp only [Nat.zero_mod, Nat.zero_div, if_true]
  rw [magnitudeText, hwhole]
  rfl

/-- The literal of a number is read as that number, unless it is the negative
zero. -/
theorem readsBack_of_decode (h : decode x ≠ .nan) (hzero : x ≠ ofMagnitude true 0) :
    (Value.number x).ReadsBack := by
  rw [Value.ReadsBack]
  cases hx : decode x with
  | nan => exact absurd hx h
  | infinite negative =>
    rw [Value.literal, hx, infinity_of_decode hx]
    cases negative <;> decide +kernel
  | finite negative m e =>
    obtain ⟨hfinite, hvalue⟩ := finite_of_decode hx
    rw [Value.literal, hx, numberText, hx]
    rcases Nat.eq_zero_or_pos m with rfl | hpos
    · have hbits : finiteBits 0 e = 0 := by
        rcases hfinite.normal with hnormal | rfl
        · cases hnormal
        · rfl
      rw [hbits] at hvalue
      cases negative with
      | true => exact absurd hvalue hzero
      | false =>
        have hread : readLiteral? ['0'] = some (ofMagnitude false 0) := by decide +kernel
        simp only [Bool.false_and, Bool.false_eq_true, if_false, magnitudeText_zero]
        rw [hread, hvalue]
    · obtain ⟨y, hy, hspelling, hread⟩ := exists_numeral_of_magnitudeText hfinite hpos
      have hne : (m != 0) = true := by simpa using hpos.ne'
      simp only [hne, Bool.and_true, ← hspelling]
      cases negative with
      | false =>
        rw [if_neg Bool.false_ne_true, readLiteral?_spelling hy, hread, hvalue]
      | true =>
        rw [if_pos rfl, readLiteral?_minus hy, hread, hvalue,
          neg_ofMagnitude hfinite.finiteBits_lt.le]

end Numbers

namespace Value

/-- Whether two values are the same, zero and its negative taken as one. -/
def Alike (v w : Value) : Prop := w = v ∨ v.equals w = true

/-- Whether the literal of a value denotes the value: parsed as a condition, it
has that value where no variable is bound, and it draws nothing. -/
def IsDenoted (v : Value) : Prop :=
  ∃ e, Expr.ofCondition? v.literal = some e ∧
    ∀ g, ∃ w, (e.eval Environment.empty).run.run g = (.ok w, g) ∧ v.Alike w

/-- Whether a value can be written: every text without a double quote, and
every number. -/
def IsWritable : Value → Prop
  | .text s => '"' ∉ s.toList
  | .number x => decode x ≠ .nan

instance (v : Value) : Decidable v.IsWritable :=
  match v with
  | .text s => inferInstanceAs (Decidable ('"' ∉ s.toList))
  | .number x => inferInstanceAs (Decidable (decode x ≠ .nan))

/-- A value that can be written has the literal of a value that is read back. -/
theorem IsWritable.exists_readsBack {v : Value} (h : v.IsWritable) :
    ∃ w : Value, w.ReadsBack ∧ w.literal = v.literal ∧ v.Alike w := by
  cases v with
  | text s => exact ⟨.text s, h, rfl, .inl rfl⟩
  | number x =>
    by_cases hzero : x = ofMagnitude true 0
    · subst hzero
      exact ⟨.number (ofMagnitude false 0), by decide +kernel, by decide +kernel,
        .inr (by decide +kernel)⟩
    · exact ⟨.number x, readsBack_of_decode h hzero, rfl, .inl rfl⟩

end Value

/-- A condition is made of the operands of signs. -/
theorem Expr.Derives.of_sign {ts : List Token} {e : Expr} (h : Derives .sign ts e) :
    Derives .alternative ts e := by
  have hproduct : Derives .product ts e := .operand (by decide) h
  have hsum : Derives .sum ts e := .operand (by decide) hproduct
  have hcomparison : Derives .comparison ts e := .operand (by decide) hsum
  have hnegation : Derives .negation ts e := .operand (by decide) hcomparison
  have hconjunction : Derives .conjunction ts e := .operand (by decide) hnegation
  exact .operand (by decide) hconjunction

/-- The literal of a value that can be written denotes it. -/
theorem Value.IsWritable.isDenoted {v : Value} (h : v.IsWritable) : v.IsDenoted := by
  obtain ⟨w, hreads, hliteral, halike⟩ := h.exists_readsBack
  obtain ⟨hcuts, e, -, hderives, heval⟩ := hreads.exists_tree
  refine ⟨e, ?_, fun g => ⟨w, ?_, halike⟩⟩
  · rw [Expr.ofCondition?, Expr.parse?, ← hliteral, hcuts.tokens?, Option.bind_some]
    exact Expr.ofTokens?_eq_some_iff.mpr hderives.of_sign
  · rw [heval]
    rfl

section Quotes

variable {env : Environment} {v w : Value}

def Value.IsQuoteFree : Value → Prop
  | .text s => '"' ∉ s.toList
  | .number _ => True

theorem quote_notMem_numberText (x : Float) : '"' ∉ numberText x := by
  cases hx : decode x with
  | nan =>
    rw [numberText, hx]
    decide
  | infinite negative =>
    rw [numberText, hx]
    cases negative <;> decide
  | finite negative m e =>
    have hmagnitude : '"' ∉ magnitudeText m e := by
      rcases Nat.eq_zero_or_pos m with rfl | hpos
      · rw [magnitudeText_zero]
        decide
      · obtain ⟨hfinite, -⟩ := finite_of_decode hx
        obtain ⟨y, hy, hspelling, -⟩ := exists_numeral_of_magnitudeText hfinite hpos
        rw [← hspelling]
        intro hmem
        exact (hy.ne_of_mem _ hmem).1 rfl
    rw [numberText, hx]
    simp only
    split
    · intro hmem
      rcases List.mem_cons.mp hmem with heq | hmem
      · cases heq
      · exact hmagnitude hmem
    · exact hmagnitude

theorem Value.IsQuoteFree.display (h : v.IsQuoteFree) : '"' ∉ v.display.toList := by
  cases v with
  | text s => exact h
  | number x =>
    rw [Value.display, formatNumber, String.toList_ofList]
    exact quote_notMem_numberText x

theorem UnaryOp.isQuoteFree_of_apply {op : UnaryOp} (h : op.apply v = .ok w) :
    w.IsQuoteFree := by
  unfold UnaryOp.apply at h
  split at h <;> cases h <;> trivial

theorem BinaryOp.isQuoteFree_of_apply {op : BinaryOp} {a b : Value} (ha : a.IsQuoteFree)
    (hb : b.IsQuoteFree) (h : op.apply a b = .ok w) : w.IsQuoteFree := by
  unfold BinaryOp.apply at h
  split at h
  case h_2 =>
    cases h
    intro hmem
    rw [String.toList_append] at hmem
    rcases List.mem_append.mp hmem with hmem | hmem
    · exact ha.display hmem
    · exact hb.display hmem
  case h_5 =>
    split at h
    · cases h
    · cases h
      trivial
  all_goals cases h <;> trivial

theorem Builtin.isQuoteFree_of_call {f : Builtin} {vs : List Value}
    (h : Yields (f.call vs) w) : w.IsQuoteFree := by
  have hdraw (h : Yields (Eval.draw : Eval Fault Value) w) : w.IsQuoteFree := by
    obtain ⟨before, after, hrun⟩ := h
    cases hrun
    trivial
  unfold Builtin.call at h
  split at h
  · exact hdraw h
  · exact hdraw h
  · rw [yields_pure h]
    trivial
  · exact absurd h not_yields_throw
  · exact absurd h not_yields_throw

def Environment.IsQuoteFree (env : Environment) : Prop :=
  ∀ name v, env.get? name = some v → v.IsQuoteFree

/-- An expression whose tokens were scanned makes no double quote. -/
theorem Expr.Derives.isQuoteFree {level : Level} {ts : List Token} {e : Expr}
    (h : Derives level ts e) (hts : ∀ t ∈ ts, t.IsSpelled) (henv : env.IsQuoteFree)
    (hv : Yields (e.eval env) v) : v.IsQuoteFree := by
  induction h generalizing v with
  | number x =>
    rw [yields_pure hv]
    trivial
  | text content =>
    have hcontent : ∀ c ∈ content, isInsideQuotes c = true := hts _ (List.mem_singleton.mpr rfl)
    rw [yields_pure hv]
    intro hmem
    rw [String.toList_ofList] at hmem
    have hquote := hcontent _ hmem
    cases hquote
  | «variable» cs =>
    rw [Expr.eval] at hv
    split at hv
    · obtain ⟨before, after, hrun⟩ := hv
      cases hrun
      trivial
    · have hget := yields_mk_pure (yields_adapt hv)
      unfold Environment.get at hget
      split at hget
      · next w hw =>
        cases hget
        exact henv _ _ hw
      · cases hget
  | invoke cs =>
    obtain ⟨f, _, hcall⟩ := yields_bind hv
    exact Builtin.isQuoteFree_of_call (yields_adapt hcall)
  | apply cs _ _ =>
    obtain ⟨f, _, hv⟩ := yields_bind hv
    obtain ⟨a, _, hcall⟩ := yields_bind hv
    exact Builtin.isQuoteFree_of_call (yields_adapt hcall)
  | parens _ ih =>
    apply ih _ hv
    intro t ht
    exact hts t (List.mem_cons_of_mem _ (List.mem_append_left _ ht))
  | plus _ _ | minus _ _ | not _ _ =>
    obtain ⟨a, _, happly⟩ := yields_bind hv
    exact UnaryOp.isQuoteFree_of_apply (yields_mk_pure happly)
  | operand _ _ ih => exact ih hts hv
  | @binary level op left right a b _ _ _ ihleft ihright =>
    have hleft : ∀ t ∈ left, t.IsSpelled := fun t ht => hts t (List.mem_append_left _ ht)
    have hright : ∀ t ∈ right, t.IsSpelled :=
      fun t ht => hts t (List.mem_append_right _ (List.mem_cons_of_mem _ ht))
    cases op with
    | and =>
      obtain ⟨x, _, hv⟩ := yields_bind hv
      split at hv
      · obtain ⟨y, _, hv⟩ := yields_bind hv
        rw [yields_pure hv]
        trivial
      · rw [yields_pure hv]
        trivial
    | or =>
      obtain ⟨x, _, hv⟩ := yields_bind hv
      split at hv
      · rw [yields_pure hv]
        trivial
      · obtain ⟨y, _, hv⟩ := yields_bind hv
        rw [yields_pure hv]
        trivial
    | _ =>
      obtain ⟨x, hx, hv⟩ := yields_bind hv
      obtain ⟨y, hy, happly⟩ := yields_bind hv
      exact BinaryOp.isQuoteFree_of_apply (ihleft hleft hx) (ihright hright hy)
        (yields_mk_pure happly)

end Quotes

theorem isSpelled_of_tokens? {cs : List Char} {ts : List Token} (h : tokens? cs = some ts) :
    ∀ t ∈ ts, t.IsSpelled := by
  fun_induction tokens? cs generalizing ts with
  | case1 =>
    cases h
    simp
  | case2 c cs _ ih => exact ih h
  | case3 c cs _ t rest hscan ih =>
    obtain ⟨ts, hts, rfl⟩ := Option.map_eq_some_iff.mp h
    intro t' ht'
    rcases List.mem_cons.mp ht' with rfl | ht'
    · exact Token.isSpelled_of_scan? hscan
    · exact ih hts t' ht'
  | case4 => cases h

/-- The literal of a number that is none is a name, which is bound to nothing. -/
theorem Value.not_isDenoted_of_nan {x : Float} (h : decode x = .nan) :
    ¬ (Value.number x).IsDenoted := by
  rintro ⟨e, he, heval⟩
  have hliteral : (Value.number x).literal = "NaN".toList := by
    simp only [Value.literal, numberText, h]
  have hname : Expr.ofCondition? "NaN".toList = some (.variable "NAN") := by decide +kernel
  rw [hliteral, hname] at he
  cases he
  obtain ⟨w, hrun, -⟩ := heval ⟨#[], 0⟩
  cases hrun

/-- No condition without variables has a text with a double quote as its value. -/
theorem Value.IsDenoted.isWritable {v : Value} (h : v.IsDenoted) : v.IsWritable := by
  cases v with
  | number x =>
    intro hnan
    exact not_isDenoted_of_nan hnan h
  | text s =>
    obtain ⟨e, he, heval⟩ := h
    obtain ⟨ts, hts, he⟩ := Option.bind_eq_some_iff.mp he
    obtain ⟨w, hrun, halike⟩ := heval ⟨#[], 0⟩
    have hempty : Environment.empty.IsQuoteFree := by
      intro name v hv
      rw [Environment.get?_empty] at hv
      cases hv
    have hfree : w.IsQuoteFree := (Expr.ofTokens?_eq_some_iff.mp he).isQuoteFree
      (isSpelled_of_tokens? hts) hempty ⟨_, _, hrun⟩
    have hw : w = .text s := by
      rcases halike with rfl | hequals
      · rfl
      · cases w with
        | number y => cases hequals
        | text t => rw [eq_of_beq hequals]
    rw [hw] at hfree
    exact hfree

end LineBasic
