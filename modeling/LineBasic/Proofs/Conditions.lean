import LineBasic.Proofs.Effects
import LineBasic.Proofs.Parentheses

/-!
Conditions as trees. A condition is evaluated by replacing its variables in the
text, but that is the same as evaluating its tree: a derivation stays one when
the variables become literals, which may carry a sign, and the value of a
literal is the value that the variable has.
-/

namespace LineBasic

namespace Expr

def functionNames : Expr → List String
  | .invoke f => [f]
  | .apply f e => f :: e.functionNames
  | .unary _ e => e.functionNames
  | .binary _ a b => a.functionNames ++ b.functionNames
  | _ => []

def variableNames : Expr → List String
  | .variable x => [x]
  | .apply _ e => e.variableNames
  | .unary _ e => e.variableNames
  | .binary _ a b => a.variableNames ++ b.variableNames
  | _ => []

def names (e : Expr) : List String := e.variableNames ++ e.functionNames

theorem treeName_eq (cs : List Char) : treeName cs = Text.upperString (String.ofList cs) := by
  simp [treeName, Text.upperString]

theorem treeName_eq_iff {cs : List Char} {name : String} :
    treeName cs = name ↔ Text.upper cs = name.toList := by
  rw [treeName, ← String.toList_inj, String.toList_ofList]

/-- The names among the tokens are the names in the tree. -/
theorem Derives.mem_names {level : Level} {ts : List Token} {e : Expr} (h : Derives level ts e)
    {cs : List Char} (hcs : .name cs ∈ ts) : treeName cs ∈ e.names := by
  induction h with
  | number | text => simp at hcs
  | «variable» | invoke =>
    simp only [List.mem_cons, Token.name.injEq, reduceCtorEq, List.not_mem_nil, or_false] at hcs
    simp [names, variableNames, functionNames, hcs]
  | apply f _ ih =>
    simp only [List.mem_cons, List.mem_append, Token.name.injEq, reduceCtorEq, List.not_mem_nil,
      or_false, false_or] at hcs
    rcases hcs with rfl | hcs
    · simp [names, functionNames]
    · have hmem := ih hcs
      simp only [names, variableNames, functionNames, List.mem_append, List.mem_cons] at hmem ⊢
      rcases hmem with hmem | hmem
      · exact .inl hmem
      · exact .inr (.inr hmem)
  | parens _ ih =>
    simp only [List.mem_cons, List.mem_append, reduceCtorEq, List.not_mem_nil, or_false,
      false_or] at hcs
    exact ih hcs
  | plus _ ih | minus _ ih | not _ ih =>
    simp only [List.mem_cons, reduceCtorEq, false_or] at hcs
    exact ih hcs
  | operand _ _ ih => exact ih hcs
  | binary _ _ _ ihleft ihright =>
    simp only [List.mem_cons, List.mem_append, reduceCtorEq, false_or] at hcs
    simp only [names, variableNames, functionNames, List.mem_append] at ihleft ihright ⊢
    rcases hcs with hcs | hcs
    · rcases ihleft hcs with hmem | hmem
      · exact .inl (.inl hmem)
      · exact .inr (.inl hmem)
    · rcases ihright hcs with hmem | hmem
      · exact .inl (.inr hmem)
      · exact .inr (.inr hmem)

end Expr

theorem CutsInto.tokens? {w : List Char} {ts : List Token} (h : CutsInto w ts) :
    LineBasic.tokens? w = some ts := by
  have hnil := h [] atBreak_nil
  rw [List.append_nil] at hnil
  simpa [LineBasic.tokens?] using hnil

/-- A minus is a token by itself. -/
theorem CutsInto.minus {w : List Char} {ts : List Token} (h : CutsInto w ts) :
    CutsInto ('-' :: w) (.operator .subtract :: ts) := by
  intro rest hrest
  have hminus (cs : List Char) :
      LineBasic.tokens? ('-' :: cs) =
        (LineBasic.tokens? cs).map (.operator .subtract :: ·) := by
    rw [LineBasic.tokens?]
    rfl
  rw [List.cons_append, hminus, h rest hrest, Option.map_map]
  rfl

namespace Value

def tokens (v : Value) : List Token := (tokens? v.literal).getD []

def tree? (v : Value) : Option Expr := Expr.ofTokens? .sign v.tokens

/-- The literal of a value that is read back is the text of an operand that has
the value. -/
theorem ReadsBack.exists_tree {v : Value} (h : v.ReadsBack) :
    CutsInto v.literal v.tokens ∧ ∃ e, v.tree? = some e ∧ Expr.Derives .sign v.tokens e ∧
      ∀ env, e.eval env = pure v := by
  have key {ts : List Token} {e : Expr} (hcuts : CutsInto v.literal ts)
      (hderives : Expr.Derives .sign ts e) (heval : ∀ env, e.eval env = pure v) :
      CutsInto v.literal v.tokens ∧ ∃ e, v.tree? = some e ∧ Expr.Derives .sign v.tokens e ∧
        ∀ env, e.eval env = pure v := by
    have htokens : v.tokens = ts := by simp [tokens, hcuts.tokens?]
    rw [tree?, htokens]
    exact ⟨hcuts, e, Expr.ofTokens?_eq_some_iff.mpr hderives, hderives, heval⟩
  have hatom : Level.sign ≠ .atom := by decide
  rcases h.cases with ⟨s, rfl, hs⟩ | ⟨x, hx, rfl, hliteral⟩ | ⟨x, hx, rfl, hliteral⟩
  · have hspelled : (Token.text s.toList).IsSpelled := hs
    refine key hspelled.cutsInto (.operand hatom (.text s.toList)) fun env => ?_
    simp [Expr.eval]
  · have hspelled : (Token.number x).IsSpelled := hx
    exact key (hliteral ▸ hspelled.cutsInto) (.operand hatom (.number x)) fun _ => rfl
  · have hspelled : (Token.number x).IsSpelled := hx
    exact key (hliteral ▸ hspelled.cutsInto.minus) (.minus (.operand hatom (.number x)))
      fun _ => rfl

end Value

/-- The tokens that a token becomes when its variable is replaced by a literal. -/
def Token.bound (env : Environment) : Token → List Token
  | .name cs =>
    match env.get? (String.ofList cs) with
    | some v => v.tokens
    | none => [.name cs]
  | t => [t]

theorem Token.IsSpelled.cutsInto_bound {env : Environment} (henv : env.ReadsBack) {t : Token}
    (ht : t.IsSpelled) : CutsInto (t.filled env) (t.bound env) := by
  cases t with
  | name cs =>
    cases hv : env.get? (String.ofList cs) with
    | some v =>
      simp only [Token.filled, Token.bound, hv]
      exact (henv _ v hv).exists_tree.1
    | none =>
      simp only [Token.filled, Token.bound, hv]
      exact ht.cutsInto
  | _ => exact ht.cutsInto

namespace Level

/-- The level of operands whose variables have become literals, which may be
signed. -/
def signed : Level → Level
  | .atom => .sign
  | level => level

@[simp] theorem signed_atom : atom.signed = .sign := rfl

theorem signed_of_ne {level : Level} (h : level ≠ .atom) : level.signed = level := by
  cases level <;> first | rfl | exact absurd rfl h

theorem signed_tighter {level : Level} (h : level ≠ .atom) (h' : level ≠ .sign) :
    level.tighter.signed = level.tighter := by
  cases level <;> first | rfl | exact absurd rfl h | exact absurd rfl h'

end Level

namespace Expr

/-- The tree in which the variables are replaced by the literals of their
values. -/
def bound (env : Environment) : Expr → Expr
  | .variable x => ((env.get? x).bind Value.tree?).getD (.variable x)
  | .apply f e => .apply f (e.bound env)
  | .unary op e => .unary op (e.bound env)
  | .binary op a b => .binary op (a.bound env) (b.bound env)
  | e => e

section Bound

variable {env : Environment}

/-- Replacing the variables by literals does not change what an expression
evaluates to, nor what it draws or how it fails. -/
theorem eval_bound (henv : env.ReadsBack) (hrnd : env.get? "RND" = none) (e : Expr) :
    (e.bound env).eval Environment.empty = e.eval env := by
  induction e with
  | number | text | invoke => rfl
  | «variable» x =>
    cases hx : env.get? x with
    | some v =>
      obtain ⟨e, htree, _, heval⟩ := (henv x v hx).exists_tree.2
      have hne : x ≠ "RND" := by
        rintro rfl
        rw [hrnd] at hx
        cases hx
      simp only [bound, hx, Option.bind_some, htree, Option.getD_some, heval, eval, hne, if_false,
        Environment.get]
      rfl
    | none =>
      simp only [bound, hx, Option.bind_none, Option.getD_none, eval, Environment.get,
        Environment.get?_empty]
  | apply f e ih => simp only [bound, eval, ih]
  | unary op e ih => simp only [bound, eval, ih]
  | binary op a b iha ihb => cases op <;> simp only [bound, eval, iha, ihb]

/-- A derivation stays one when its variables become literals. The names of the
functions must not be bound. -/
theorem Derives.bound {level : Level} {ts : List Token} {e : Expr} (h : Derives level ts e)
    (henv : env.ReadsBack) (hts : ∀ t ∈ ts, t.IsSpelled)
    (hfunctions : ∀ f ∈ e.functionNames, env.get? f = none) :
    Derives level.signed (ts.flatMap (Token.bound env)) (e.bound env) := by
  have hget {cs : List Char} (hcs : (Token.name cs).IsSpelled) :
      env.get? (treeName cs) = env.get? (String.ofList cs) := by
    rw [← env.get?_upperString hcs, treeName_eq]
  have hatom : Level.sign ≠ .atom := by decide
  induction h with
  | number x => exact .operand hatom (.number x)
  | text content => exact .operand hatom (.text content)
  | «variable» cs =>
    have hcs := hget (hts _ List.mem_cons_self)
    cases hv : env.get? (String.ofList cs) with
    | some v =>
      obtain ⟨e, htree, hderives, _⟩ := (henv _ v hv).exists_tree.2
      simpa [Token.bound, Expr.bound, hcs, hv, htree] using hderives
    | none =>
      have hname : Derives .sign [.name cs] (.variable (treeName cs)) :=
        .operand hatom (.variable cs)
      simpa [Token.bound, Expr.bound, hcs, hv] using hname
  | invoke cs =>
    have hcs := hget (hts _ List.mem_cons_self)
    rw [hfunctions _ (by simp [functionNames])] at hcs
    have hcall : Derives .sign [.name cs, .lparen, .rparen] (.invoke (treeName cs)) :=
      .operand hatom (.invoke cs)
    simpa [Token.bound, Expr.bound, ← hcs] using hcall
  | apply cs _ ih =>
    have hcs := hget (hts _ List.mem_cons_self)
    rw [hfunctions _ (by simp [functionNames])] at hcs
    have hargument := ih (fun t ht => hts t (by simp [ht]))
      fun f hf => hfunctions f (by simp [functionNames, hf])
    have hcall := Derives.operand hatom (.apply cs hargument)
    simpa [Token.bound, Expr.bound, ← hcs] using hcall
  | parens _ ih =>
    have hinner := ih (fun t ht => hts t (by simp [ht])) hfunctions
    have hparens := Derives.operand hatom (.parens hinner)
    simpa [Token.bound] using hparens
  | plus _ ih => exact .plus (ih (fun t ht => hts t (by simp [ht])) hfunctions)
  | minus _ ih => exact .minus (ih (fun t ht => hts t (by simp [ht])) hfunctions)
  | not _ ih => exact .not (ih (fun t ht => hts t (by simp [ht])) hfunctions)
  | @operand level _ _ hlevel _ ih =>
    have hinner := ih hts hfunctions
    rw [Level.signed_of_ne hlevel]
    by_cases hsign : level = .sign
    · subst hsign
      exact hinner
    · rw [Level.signed_tighter hlevel hsign] at hinner
      exact .operand hlevel hinner
  | @binary level op _ _ _ _ hop _ _ ihleft ihright =>
    have hlevel : level ≠ .atom := hop ▸ op.level_ne_atom
    have hsign : level ≠ .sign := by
      rintro rfl
      cases op <;> cases hop
    have hleft := ihleft (fun t ht => hts t (by simp [ht]))
      fun f hf => hfunctions f (by simp [functionNames, hf])
    have hright := ihright (fun t ht => hts t (by simp [ht]))
      fun f hf => hfunctions f (by simp [functionNames, hf])
    rw [Level.signed_of_ne hlevel] at hleft ⊢
    rw [Level.signed_tighter hlevel hsign] at hright
    have hbinary := Derives.binary hop hleft hright
    simpa [Token.bound, Expr.bound] using hbinary

end Bound

end Expr

namespace Condition

theorem eq_of_logicalWord? {name : String} (h : logicalWord? name ≠ none) :
    name = "AND" ∨ name = "OR" ∨ name = "NOT" := by
  unfold logicalWord? at h
  split at h
  · next heq => exact .inl heq
  · split at h
    · next heq => exact .inr (.inl heq)
    · split at h
      · next heq => exact .inr (.inr heq)
      · exact absurd rfl h

/-- Expanding the text of a condition leads to the tree in which the variables
are literals. -/
theorem ofCondition?_expand {ws : List Written} {e : Expr} {env : Environment}
    (h : Expr.Derives .alternative (ws.map Written.token) e) (hws : ∀ w ∈ ws, w.IsPlain)
    (hwords : env.LeavesLogicalWords) (hfunctions : ∀ f ∈ e.functionNames, env.get? f = none)
    (henv : env.ReadsBack) :
    Expr.ofCondition? (expand env (spaced (ws.map Written.word))) = some (e.bound env) := by
  obtain ⟨ws', hsub, hderives, hstrip⟩ := Written.stripParens_spaced h
  have hne : ws' ≠ [] := by
    rintro rfl
    exact absurd hderives.length_pos (by simp)
  have hexpand : expand env (spaced (ws.map Written.word)) =
      spaced (ws'.map fun w => w.token.filled env) := by
    rw [expand, hstrip]
    exact Written.expand_spaced (fun w hw => hws w (hsub w hw)) hwords henv
  have htokens : tokens? (spaced (ws'.map fun w => w.token.filled env)) =
      some ((ws'.map Written.token).flatMap (Token.bound env)) := by
    rw [List.flatMap_map]
    exact tokens?_spaced hne fun w _ => w.spelled.cutsInto_bound henv
  have hspelled : ∀ t ∈ ws'.map Written.token, t.IsSpelled := by
    intro t ht
    obtain ⟨w, _, rfl⟩ := List.mem_map.mp ht
    exact w.spelled
  rw [hexpand, Expr.ofCondition?, Expr.parse?, htokens]
  exact Expr.ofTokens?_eq_some_iff.mpr (hderives.bound henv hspelled hfunctions)

/-- A condition has the truth of its tree: its text, with the variables and the
logical words replaced, is evaluated to what the tree is evaluated to, with the
same draws, and fails exactly when the tree does. -/
theorem holds_eq_eval {ws : List Written} {e : Expr} {env : Environment}
    (h : Expr.Derives .alternative (ws.map Written.token) e)
    (hpower : ∀ x, .number x ∈ ws.map Written.token → x.power ≠ none → x.fraction ≠ some [])
    (hnames : ∀ name ∈ e.names, logicalWord? name = none)
    (hfunctions : ∀ f ∈ e.functionNames, env.get? f = none)
    (hreserved : ∀ name ∈ ["RND", "AND", "OR", "NOT"], env.get? name = none)
    (henv : env.ReadsBack) (g : Generator) :
    let text := Text.trim (spaced (ws.map Written.word))
    (holds env text).run.run g =
      match (e.eval env).run.run g with
      | (.ok v, g) => (.ok v.isTrue, g)
      | (.error _, g) =>
        (.error (.undecidedCondition (String.ofList text) (String.ofList (expand env text))),
          g) := by
  intro text
  have hne : ws ≠ [] := by
    rintro rfl
    exact absurd h.length_pos (by simp)
  have htext : text = spaced (ws.map Written.word) := (Written.hasEdges_spaced hne).trim
  have hwords : env.LeavesLogicalWords := by
    intro name hname
    rcases eq_of_logicalWord? hname with rfl | rfl | rfl <;> exact hreserved _ (by simp)
  have hplain : ∀ w ∈ ws, w.IsPlain := by
    intro w hw
    have htoken := List.mem_map_of_mem (f := Written.token) hw
    constructor
    · intro x hx
      rw [hx] at htoken
      exact hpower x htoken
    · intro cs hcs
      rw [hcs] at htoken
      have hname := hnames _ (h.mem_names htoken)
      rwa [Expr.treeName_eq] at hname
  have htree := ofCondition?_expand h hplain hwords hfunctions henv
  rw [← htext] at htree
  have heval := e.eval_bound henv (hreserved "RND" (by simp))
  unfold holds
  simp only [htree, heval, run_run_bind, run_run_adapt]
  cases (e.eval env).run.run g with
  | mk r g' => cases r <;> rfl

/-- A negative number and a negated comparison of texts. -/
theorem holds_eq_eval_at_sign :
    let spelled (t : Token) (h : Token.scan? t.spelling = some (t, [])) : Written :=
      ⟨t, t.spelling, Token.isSpelled_of_scan? h, .spelled t⟩
    let ws : List Written := [
      spelled (.name ['a']) rfl, ⟨.operator .equal, ['='], trivial, .equal⟩,
      spelled (.operator .subtract) rfl, spelled (.number ⟨['5'], none, none⟩) rfl,
      ⟨.operator .and, ['a', 'n', 'd'], trivial, .word (Token.isSpelled_iff_scan?.mpr rfl) rfl⟩,
      ⟨.bang, ['N', 'O', 'T'], trivial, .word (Token.isSpelled_iff_scan?.mpr rfl) rfl⟩,
      spelled (.name ['B']) rfl, spelled (.operator .equal) rfl, spelled (.text ['n', 'o']) rfl]
    let env : Environment := ⟨((∅ : Std.ExtTreeMap String Value compare).insert "A"
      (.number (-5))).insert "B" (.text "yes")⟩
    spaced (ws.map Written.word) = "a = - 5 and NOT B == \"no\"".toList ∧
      ((holds env (Text.trim (spaced (ws.map Written.word)))).run.run ⟨#[], 0⟩).1.toOption =
        some true := by
  intro spelled ws env
  let e : Expr := .binary .and
    (.binary .equal (.variable "A") (.unary .minus (.number ⟨['5'], none, none⟩)))
    (.unary .not (.binary .equal (.variable "B") (.text "no")))
  have hparse : Expr.ofTokens? .alternative (ws.map Written.token) = some e := by decide +kernel
  have hpower : ∀ x, Token.number x ∈ ws.map Written.token →
      x.power ≠ none → x.fraction ≠ some [] := by
    intro x hx
    simp only [ws, spelled, List.map_cons, List.map_nil, List.mem_cons, Token.number.injEq,
      reduceCtorEq, List.not_mem_nil, or_false, false_or] at hx
    simp [hx]
  have henv : env.ReadsBack := by
    intro name v hv
    simp only [env, Environment.get?, Std.ExtTreeMap.getElem?_insert] at hv
    split at hv
    · cases hv
      decide +kernel
    · split at hv
      · cases hv
        decide +kernel
      · simp at hv
  have hholds := holds_eq_eval (Expr.ofTokens?_eq_some_iff.mp hparse) hpower
    (by decide +kernel) (by decide +kernel) (by decide +kernel) henv ⟨#[], 0⟩
  refine ⟨by decide +kernel, ?_⟩
  rw [hholds]
  decide +kernel

end Condition

end LineBasic
