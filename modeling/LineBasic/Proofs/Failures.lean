import LineBasic.Proofs.CapitalConditions
import LineBasic.Proofs.NestedBranches
import LineBasic.Proofs.UpperCase

/-!
What evaluation can fail with. A tree fails where an operator does not apply to its operands, a
divisor is zero, a function is unknown or called in the wrong way, or a variable of the tree is
not bound. On text these become the faults of an expression; an argument of PRINT catches all of
them but the last and the zero divisor, and a condition makes one fault of its own of them all.
-/

namespace LineBasic

section Computations

variable {ε ε' σ α β : Type} {P Q : ε → Prop} {P' : ε' → Prop}

/-- Whether a computation fails with certain errors only, whatever state it starts in. -/
def FailsOnly (P : ε → Prop) (x : ExceptT ε (StateM σ) α) : Prop :=
  ∀ s e s', x.run.run s = (.error e, s') → P e

theorem failsOnly_pure (a : α) : FailsOnly P (pure a : ExceptT ε (StateM σ) α) := by
  intro s e s' h
  cases h

theorem failsOnly_throw {e : ε} (h : P e) : FailsOnly P (throw e : ExceptT ε (StateM σ) α) := by
  intro s e' s' hrun
  cases hrun
  exact h

theorem failsOnly_mk_pure {r : Except ε α} (h : ∀ e, r = .error e → P e) :
    FailsOnly P (ExceptT.mk (pure r) : ExceptT ε (StateM σ) α) := by
  intro s e s' hrun
  exact h e (congrArg Prod.fst hrun)

theorem FailsOnly.mono {x : ExceptT ε (StateM σ) α} (hx : FailsOnly P x) (h : ∀ e, P e → Q e) :
    FailsOnly Q x :=
  fun s e s' hrun => h e (hx s e s' hrun)

theorem FailsOnly.bind {x : ExceptT ε (StateM σ) α} {f : α → ExceptT ε (StateM σ) β}
    (hx : FailsOnly P x) (hf : ∀ a, FailsOnly P (f a)) : FailsOnly P (x >>= f) := by
  intro s e s' hrun
  rw [run_run_bind] at hrun
  split at hrun
  · next a t ht => exact hf a t e s' hrun
  · next e' t ht =>
    cases hrun
    exact hx s e s' ht

theorem FailsOnly.adapt {f : ε → ε'} {x : ExceptT ε (StateM σ) α} (hx : FailsOnly P x)
    (h : ∀ e, P e → P' (f e)) : FailsOnly P' (x.adapt f) := by
  intro s e s' hrun
  rw [run_run_adapt] at hrun
  cases ht : x.run.run s with
  | mk r t =>
    rw [ht] at hrun
    cases r with
    | ok a => cases hrun
    | error e' =>
      cases hrun
      exact h e' (hx s e' t ht)

/-- Only what is not handled is left. -/
theorem FailsOnly.tryCatch {x : ExceptT ε (StateM σ) α} {f : ε → ExceptT ε (StateM σ) α}
    (hx : FailsOnly P x) (hf : ∀ e, P e → FailsOnly Q (f e)) : FailsOnly Q (tryCatch x f) := by
  intro s e s' hrun
  rw [run_run_tryCatch] at hrun
  split at hrun
  · cases hrun
  · next e' t ht => exact hf e' (hx s e' t ht) t e s' hrun

end Computations

inductive Expr.Fails (env : Environment) (e : Expr) : Failure → Prop
  | mismatch (m : Mismatch) : Fails env e (.mismatch m)
  | division : Fails env e (.fault .divisionByZero)
  | expression {f : Fault} (h : f.isExpressionFault = true) : Fails env e (.fault f)
  | variable {name : String} (hname : name ∈ e.variableNames) (hfree : env.get? name = none) :
      Fails env e (.fault (.undefinedVariable (Text.upperString name)))

section Trees

variable {env : Environment} {e e' : Expr} {failure : Failure}

theorem Expr.Fails.mono (h : e.Fails env failure)
    (hnames : ∀ name ∈ e.variableNames, name ∈ e'.variableNames) : e'.Fails env failure := by
  cases h with
  | mismatch m => exact .mismatch m
  | division => exact .division
  | expression hf => exact .expression hf
  | «variable» hname hfree => exact .variable (hnames _ hname) hfree

theorem UnaryOp.fails_of_apply {op : UnaryOp} {v : Value} (h : op.apply v = .error failure) :
    e.Fails env failure := by
  unfold apply at h
  split at h <;> cases h
  exact .mismatch _

theorem BinaryOp.fails_of_apply {op : BinaryOp} {a b : Value}
    (h : op.apply a b = .error failure) : e.Fails env failure := by
  unfold apply at h
  split at h
  case h_5 =>
    split at h <;> cases h
    exact .division
  all_goals cases h
  all_goals exact .mismatch _

theorem Builtin.failsOnly_call (f : Builtin) (values : List Value) :
    FailsOnly (fun fault => fault.isExpressionFault = true) (f.call values) := by
  have hdraw : FailsOnly (fun fault => fault.isExpressionFault = true)
      (Eval.draw : Eval Fault Value) := by
    intro s fault s' h
    cases h
  unfold call
  split
  · exact hdraw
  · exact hdraw
  · exact failsOnly_pure _
  · exact failsOnly_throw rfl
  · exact failsOnly_throw rfl

theorem Expr.failsOnly_builtin (name : String) : FailsOnly (e.Fails env) (builtin name) := by
  unfold builtin
  split
  · exact failsOnly_pure _
  · exact failsOnly_throw (.expression rfl)

theorem Expr.failsOnly_call (f : Builtin) (values : List Value) :
    FailsOnly (e.Fails env) ((f.call values).adapt Failure.fault) :=
  (f.failsOnly_call values).adapt fun _ hfault => .expression hfault

/-- A tree fails in one of these ways, with a variable of its own. -/
theorem Expr.failsOnly_eval (env : Environment) (e : Expr) :
    FailsOnly (e.Fails env) (e.eval env) := by
  induction e with
  | number x => exact failsOnly_pure _
  | text s => exact failsOnly_pure _
  | «variable» name =>
    unfold eval
    split
    · intro s failure s' h
      cases h
    · intro s failure s' h
      rw [run_run_adapt] at h
      unfold Environment.get at h
      split at h
      · cases h
      · next hfree =>
        cases h
        exact .variable List.mem_cons_self hfree
  | invoke name => exact (failsOnly_builtin name).bind fun f => failsOnly_call f []
  | apply name argument ih =>
    have hargument : FailsOnly ((apply name argument).Fails env) (argument.eval env) :=
      ih.mono fun failure h => h.mono fun _ hname => hname
    refine (failsOnly_builtin name).bind fun f => ?_
    exact hargument.bind fun v => failsOnly_call f [v]
  | unary op operand ih =>
    have hoperand : FailsOnly ((unary op operand).Fails env) (operand.eval env) :=
      ih.mono fun failure h => h.mono fun _ hname => hname
    refine hoperand.bind fun v => ?_
    exact failsOnly_mk_pure fun failure h => UnaryOp.fails_of_apply h
  | binary op left right ihleft ihright =>
    have hleft : FailsOnly ((binary op left right).Fails env) (left.eval env) :=
      ihleft.mono fun failure h => h.mono fun _ hname => List.mem_append_left _ hname
    have hright : FailsOnly ((binary op left right).Fails env) (right.eval env) :=
      ihright.mono fun failure h => h.mono fun _ hname => List.mem_append_right _ hname
    -- The logical operators may leave their right operand unevaluated.
    cases op with
    | and =>
      refine hleft.bind fun a => ?_
      split
      · exact hright.bind fun b => failsOnly_pure _
      · exact failsOnly_pure _
    | or =>
      refine hleft.bind fun a => ?_
      split
      · exact failsOnly_pure _
      · exact hright.bind fun b => failsOnly_pure _
    | _ =>
      refine hleft.bind fun a => hright.bind fun b => ?_
      exact failsOnly_mk_pure fun failure h => BinaryOp.fails_of_apply h

/-- The variables of a tree are names among its tokens. -/
theorem Expr.Derives.exists_name {level : Level} {ts : List Token} (h : Derives level ts e)
    {name : String} (hname : name ∈ e.variableNames) :
    ∃ cs, Token.name cs ∈ ts ∧ name = treeName cs := by
  induction h with
  | number | text | invoke => cases hname
  | «variable» cs => exact ⟨cs, List.mem_cons_self, List.mem_singleton.mp hname⟩
  | apply _ _ ih =>
    obtain ⟨cs, hcs, heq⟩ := ih hname
    exact ⟨cs, by simp [hcs], heq⟩
  | parens _ ih =>
    obtain ⟨cs, hcs, heq⟩ := ih hname
    exact ⟨cs, by simp [hcs], heq⟩
  | plus _ ih | minus _ ih | not _ ih =>
    obtain ⟨cs, hcs, heq⟩ := ih hname
    exact ⟨cs, List.mem_cons_of_mem _ hcs, heq⟩
  | operand _ _ ih => exact ih hname
  | binary _ _ _ ihleft ihright =>
    rcases List.mem_append.mp hname with hname | hname
    · obtain ⟨cs, hcs, heq⟩ := ihleft hname
      exact ⟨cs, List.mem_append_left _ hcs, heq⟩
    · obtain ⟨cs, hcs, heq⟩ := ihright hname
      exact ⟨cs, List.mem_append_right _ (List.mem_cons_of_mem _ hcs), heq⟩

end Trees

def Fault.IsUnbound (env : Environment) (cs : List Char) (f : Fault) : Prop :=
  ∃ ts w, tokens? cs = some ts ∧ Token.name w ∈ ts ∧ env.get? (String.ofList w) = none ∧
    f = .undefinedVariable (Text.upperString (String.ofList w))

section Texts

variable {env : Environment} {cs : List Char} {f : Fault}

/-- A token stands in the text that it is cut from. -/
theorem infix_of_tokens? {ts : List Token} (h : tokens? cs = some ts) {t : Token} (ht : t ∈ ts) :
    t.spelling <:+: cs := by
  fun_induction tokens? cs generalizing ts with
  | case1 =>
    cases h
    cases ht
  | case2 c cs _ ih => exact List.infix_cons (ih h ht)
  | case3 c cs _ u rest hscan ih =>
    obtain ⟨us, hus, rfl⟩ := Option.map_eq_some_iff.mp h
    rw [← (Token.spelling_append_of_scan? hscan).1]
    rcases List.mem_cons.mp ht with rfl | ht
    · exact (List.prefix_append _ _).isInfix
    · exact (ih hus ht).trans (List.suffix_append _ _).isInfix
  | case4 => cases h

theorem failsOnly_evaluateTrimmed (env : Environment) (cs : List Char) :
    FailsOnly (fun f => f.isExpressionFault = true ∨ f = .divisionByZero ∨ f.IsUnbound env cs)
      (evaluateTrimmed env cs) := by
  unfold evaluateTrimmed
  split
  · exact failsOnly_pure _
  · split
    · exact failsOnly_pure _
    · split
      · next e he =>
        refine (Expr.failsOnly_eval env e).adapt fun failure hfails => ?_
        cases hfails with
        | mismatch m => exact .inl rfl
        | division => exact .inr (.inl rfl)
        | expression hf => exact .inl hf
        | «variable» hname hfree =>
          obtain ⟨ts, hts, hderives⟩ := Option.bind_eq_some_iff.mp he
          obtain ⟨w, hw, rfl⟩ := (Expr.ofTokens?_eq_some_iff.mp hderives).exists_name hname
          simp only [Expr.treeName_eq, Environment.get?, Text.upperString_upperString] at hfree ⊢
          exact .inr (.inr ⟨ts, w, hts, hw, hfree, rfl⟩)
      · exact failsOnly_throw (.inl rfl)

/-- An argument of PRINT catches the faults of its expression. -/
theorem PrintItem.failsOnly_evaluate (env : Environment) (cs : List Char) :
    FailsOnly (fun f => f.kind = "UndefinedVariable" ∨ f.kind = "DivisionByZero")
      (evaluate env cs) := by
  unfold evaluate
  split
  · exact failsOnly_pure _
  · split
    · split
      · intro s f s' h
        cases h
      · refine failsOnly_mk_pure fun f h => ?_
        unfold Environment.get at h
        split at h
        · cases h
        · cases h
          exact .inl rfl
    · refine (failsOnly_evaluateTrimmed env cs).tryCatch fun f hf => ?_
      split
      · exact failsOnly_pure _
      · next hother =>
        refine failsOnly_throw ?_
        -- The name that is not bound and the zero divisor are no faults of an expression.
        rcases hf with hf | rfl | ⟨ts, w, -, -, -, rfl⟩
        · exact absurd hf hother
        · exact .inr rfl
        · exact .inl rfl

/-- What is caught is printed as literal text. -/
theorem PrintItem.evaluate_of_caught {g g' : Generator} (hname : isName cs = false)
    (h : (evaluateTrimmed env cs).run.run g = (.error f, g')) (hf : f.isExpressionFault = true) :
    (evaluate env cs).run.run g = (.ok (.text (literalText env cs)), g') := by
  have hcontent : literalContent? cs = none := by
    cases hcontent : literalContent? cs with
    | none => rfl
    | some content =>
      rw [evaluateTrimmed, hcontent] at h
      cases h
  rw [evaluate, hcontent]
  simp only [hname, Bool.false_eq_true, if_false]
  rw [run_run_tryCatch, h]
  simp only [hf, if_true]
  rfl

theorem Fault.message_undecidedCondition (condition expanded : String) :
    (undecidedCondition condition expanded).message = "Cannot evaluate condition: " ++
      condition ++ " (rewritten as " ++ expanded ++ ")" := rfl

/-- The message of an undecided condition holds the condition and what it was expanded to. -/
theorem Fault.infix_message_undecidedCondition (condition expanded : List Char) :
    condition <:+: (undecidedCondition (String.ofList condition)
        (String.ofList expanded)).message.toList ∧
      expanded <:+: (undecidedCondition (String.ofList condition)
        (String.ofList expanded)).message.toList := by
  rw [message_undecidedCondition]
  generalize "Cannot evaluate condition: " = front
  generalize " (rewritten as " = between
  generalize ")" = last
  simp only [String.toList_append, String.toList_ofList]
  constructor
  · refine ⟨front.toList, between.toList ++ (expanded ++ last.toList), ?_⟩
    simp only [List.append_assoc]
  · refine ⟨front.toList ++ (condition ++ between.toList), last.toList, ?_⟩
    simp only [List.append_assoc]

end Texts

/-- Evaluation fails with the faults of an expression, the zero divisor, and a name of the text that
is not bound. An argument of PRINT fails with the last two only, since it becomes literal text where
its expression cannot be evaluated, and a condition fails with one fault, whose message holds the
condition and what it was expanded to. -/
theorem evaluation_faults (env : Environment) (s : String) (g g' : Generator) (f : Fault) :
    ((evaluate env s).run.run g = (.error f, g') →
        (f.kind = "CannotEvaluateExpression" ∨ f.kind = "UndefinedVariable" ∨
          f.kind = "DivisionByZero") ∧
        (f.kind = "UndefinedVariable" → ∃ ts w, tokens? (Text.trim s.toList) = some ts ∧
          Token.name w ∈ ts ∧ w <:+: s.toList ∧ env.get? (String.ofList w) = none ∧
          f = .undefinedVariable (Text.upperString (String.ofList w))) ∧
        (f.kind = "CannotEvaluateExpression" → isName (Text.trim s.toList) = false →
          (PrintItem.evaluate env (Text.trim s.toList)).run.run g =
            (.ok (.text (PrintItem.literalText env (Text.trim s.toList))), g'))) ∧
      ((PrintItem.evaluate env (Text.trim s.toList)).run.run g = (.error f, g') →
        f.kind = "UndefinedVariable" ∨ f.kind = "DivisionByZero") ∧
      ((Condition.holds env (Text.trim s.toList)).run.run g = (.error f, g') →
        f.kind = "CannotEvaluateCondition" ∧ Text.trim s.toList <:+: f.message.toList ∧
          Condition.expand env (Text.trim s.toList) <:+: f.message.toList) := by
  refine ⟨fun h => ?_, fun h => ?_, fun h => ?_⟩
  · have hkind (hf : f.isExpressionFault = true) : f.kind = "CannotEvaluateExpression" := by
      rw [Fault.isExpressionFault_eq] at hf
      exact of_decide_eq_true hf
    have hcause := failsOnly_evaluateTrimmed env _ g f g' h
    refine ⟨?_, ?_, ?_⟩
    · rcases hcause with hf | rfl | ⟨ts, w, -, -, -, rfl⟩
      · exact .inl (hkind hf)
      · exact .inr (.inr rfl)
      · exact .inr (.inl rfl)
    · intro hundefined
      rcases hcause with hf | rfl | ⟨ts, w, hts, hw, hfree, rfl⟩
      · rw [hkind hf] at hundefined
        exact absurd hundefined (by decide)
      · exact absurd hundefined (by decide)
      · have hinfix : w <:+: s.toList := (infix_of_tokens? hts hw).trans (Text.infix_trim _)
        exact ⟨ts, w, hts, hw, hinfix, hfree, rfl⟩
    · intro hexpression hname
      refine PrintItem.evaluate_of_caught hname h ?_
      rw [Fault.isExpressionFault_eq, hexpression]
      rfl
  · exact PrintItem.failsOnly_evaluate env _ g f g' h
  · rw [Condition.eq_undecided_of_holds h]
    exact ⟨rfl, Fault.infix_message_undecidedCondition _ _⟩

/-- A name that is not bound, a sign before a text, which is printed as it stands, and a condition
that divides by zero. -/
theorem evaluation_faults_at_failures :
    (∃ ts w, tokens? (Text.trim " a + 1".toList) = some ts ∧ Token.name w ∈ ts ∧
      w <:+: " a + 1".toList ∧ Environment.empty.get? (String.ofList w) = none ∧
      Fault.undefinedVariable "A" = .undefinedVariable (Text.upperString (String.ofList w))) ∧
    (PrintItem.evaluate .empty (Text.trim "- \"x\"".toList)).run.run ⟨#[], 0⟩ =
      (.ok (.text (PrintItem.literalText .empty (Text.trim "- \"x\"".toList))), ⟨#[], 0⟩) ∧
    Text.trim " 1 / 0".toList <:+:
      (Fault.undecidedCondition "1 / 0" "1 / 0").message.toList := by
  have hunbound : (evaluate .empty " a + 1").run.run ⟨#[], 0⟩ =
      (.error (.undefinedVariable "A"), ⟨#[], 0⟩) :=
    Prod.ext (by decide +kernel) (by decide +kernel)
  have hmismatch : (evaluate .empty "- \"x\"").run.run ⟨#[], 0⟩ =
      (.error (.illTyped "- \"x\"" (.sign .minus .text)), ⟨#[], 0⟩) :=
    Prod.ext (by decide +kernel) (by decide +kernel)
  have hdivision : (Condition.holds .empty (Text.trim " 1 / 0".toList)).run.run ⟨#[], 0⟩ =
      (.error (.undecidedCondition "1 / 0" "1 / 0"), ⟨#[], 0⟩) :=
    Prod.ext (by decide +kernel) (by decide +kernel)
  refine ⟨?_, ?_, ?_⟩
  · exact ((evaluation_faults _ _ _ _ _).1 hunbound).2.1 rfl
  · exact ((evaluation_faults _ _ _ _ _).1 hmismatch).2.2 rfl (by decide +kernel)
  · exact ((evaluation_faults _ " 1 / 0" _ _ _).2.2 hdivision).2.1

end LineBasic
