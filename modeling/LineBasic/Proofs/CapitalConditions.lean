import LineBasic.PrintList
import LineBasic.Proofs.CapitalExpressions

/-!
Conditions and the arguments of PRINT in capitals. Both put the texts of variables
into their own text. A text that holds a quote starts or ends a text literal there,
and the letters behind it count as they are written. Without such texts a condition
holds in any case or in none, and so does an argument print the same that is not
printed as its literal text.
-/

namespace LineBasic

open Text

namespace Piece

variable {quoted : Bool} {cs : List Char} {env : Environment} {p : Piece} {ps : List Piece}

def inCapitals (quoted : Bool) : Piece → Piece
  | .quoted content => .quoted content
  | .word cs => .word (capitals quoted cs)
  | .other c => .other (capital quoted c)

/-- The pieces of a text in capitals. Behind a quote without a partner they are inside
a literal. -/
def allInCapitals (quoted : Bool) : List Piece → List Piece
  | [] => []
  | p :: ps => p.inCapitals quoted :: allInCapitals (quotedAfter quoted p.spelling) ps

theorem notMem_of_dropWhile (h : cs.dropWhile isInsideQuotes = []) : '"' ∉ cs := by
  intro hmem
  rw [← List.takeWhile_append_dropWhile (p := isInsideQuotes) (l := cs), h, List.append_nil] at hmem
  exact Shape.notMem_takeWhile cs hmem

/-- A text is cut in capitals where it is cut as it is written. -/
theorem cut_capitals (afterWord : Bool) (h : quoted = true → '"' ∉ cs) :
    cut afterWord (capitals quoted cs) = allInCapitals quoted (cut afterWord cs) := by
  have houtside {quoted : Bool} {cs : List Char} (h : quoted = true → '"' ∉ '"' :: cs) :
      quoted = false := Bool.eq_false_iff.mpr fun hq => h hq List.mem_cons_self
  fun_induction cut afterWord cs generalizing quoted with
  | case1 => rw [capitals_nil, cut, allInCapitals]
  | case2 afterWord cs mark rest hrest ih =>
    obtain rfl := houtside h
    obtain rfl := Shape.eq_quote_of_dropWhile hrest
    have hdrop := Token.dropWhile_isInsideQuotes_capitals cs
    rw [hrest, capitals_quote] at hdrop
    have hbehind : quotedAfter false (spelling (.quoted (cs.takeWhile isInsideQuotes))) = false :=
      quotedAfter_literal (Shape.notMem_takeWhile cs) false
    rw [capitals_quote, Bool.not_false, cut_quote hdrop, Token.takeWhile_isInsideQuotes_capitals,
      allInCapitals, hbehind, Bool.not_true, ih (by simp)]
    rfl
  | case3 afterWord cs hnone ih =>
    obtain rfl := houtside h
    have hdrop : (capitals true cs).dropWhile isInsideQuotes = [] := by
      rw [Token.dropWhile_isInsideQuotes_capitals, hnone, capitals_nil]
    rw [capitals_quote, Bool.not_false, cut_quote_of_nil hdrop,
      ih fun _ => notMem_of_dropWhile hnone]
    rfl
  | case4 afterWord c cs hc hword ih =>
    have hquote : capital quoted c ≠ '"' := mt (capital_eq_iff rfl).mp hc
    have hstart := Token.caseBlind_isNameStart quoted c
    have hbehind : quotedAfter quoted (spelling (.word (c :: cs.takeWhile isWord))) = quoted := by
      rw [spelling, quotedAfter_cons, turn_of_ne hc,
        quotedAfter_of_forall (by decide) fun c hc => mem_takeWhile hc]
    rw [capitals_cons, turn_of_ne hc, cut, if_neg hquote, hstart, if_pos hword,
      takeWhile_capitals caseBlind_isWord, dropWhile_capitals_of_quote caseBlind_isWord (by decide)]
    have hrest : quoted = true → '"' ∉ cs.dropWhile isWord := fun hq hmem =>
      h hq (List.mem_cons_of_mem c ((List.dropWhile_sublist isWord).mem hmem))
    rw [allInCapitals, hbehind, inCapitals, capitals_cons, turn_of_ne hc, ih hrest]
  | case5 afterWord c cs hc hword ih =>
    have hquote : capital quoted c ≠ '"' := mt (capital_eq_iff rfl).mp hc
    have hstart := Token.caseBlind_isNameStart quoted c
    have hbehind : quotedAfter quoted (spelling (.other c)) = quoted := turn_of_ne hc quoted
    have hrest : quoted = true → '"' ∉ cs := fun hq hmem => h hq (List.mem_cons_of_mem c hmem)
    rw [capitals_cons, turn_of_ne hc, cut, if_neg hquote, hstart, if_neg hword,
      caseBlind_isWord, ih hrest, allInCapitals, hbehind, inCapitals]

theorem flatMap_spelling_cut (afterWord : Bool) (cs : List Char) :
    (cut afterWord cs).flatMap spelling = cs := by
  fun_induction cut afterWord cs with
  | case1 => rfl
  | case2 afterWord cs mark rest hrest ih =>
    obtain rfl := Shape.eq_quote_of_dropWhile hrest
    rw [List.flatMap_cons, ih, spelling, List.append_assoc, List.singleton_append, ← hrest,
      List.cons_append, List.takeWhile_append_dropWhile]
  | case3 afterWord cs _ ih => rw [List.flatMap_cons, ih, spelling, List.singleton_append]
  | case4 afterWord c cs _ _ ih =>
    rw [List.flatMap_cons, ih, spelling, List.cons_append, List.takeWhile_append_dropWhile]
  | case5 afterWord c cs _ _ ih => rw [List.flatMap_cons, ih, spelling, List.singleton_append]

theorem notMem_of_word_mem_cut {afterWord : Bool} {word : List Char}
    (h : .word word ∈ cut afterWord cs) : '"' ∉ word := by
  rcases isClosed_of_mem_cut afterWord cs with hclosed | ⟨before, after, hcut, hbefore, hafter⟩
  · exact hclosed _ h
  · rw [hcut] at h
    rcases List.mem_append.mp h with h | h
    · exact hbefore _ h
    · rcases List.mem_cons.mp h with heq | h
      · cases heq
      · exact hafter _ h

/-- Whether a piece of a condition is a variable whose text holds a quote. -/
def takesQuotes (env : Environment) : Piece → Bool
  | .word cs =>
    match env.get? (String.ofList cs) with
    | some (.text s) => s.toList.contains '"'
    | _ => false
  | _ => false

theorem takesQuotes_inCapitals : (p.inCapitals quoted).takesQuotes env = p.takesQuotes env := by
  cases p with
  | word cs => rw [inCapitals, takesQuotes, takesQuotes, Environment.get?_capitals]
  | quoted content | other c => rfl

theorem any_takesQuotes_allInCapitals :
    (allInCapitals quoted ps).any (takesQuotes env) = ps.any (takesQuotes env) := by
  induction ps generalizing quoted with
  | nil => rfl
  | cons p ps ih =>
    rw [allInCapitals, List.any_cons, List.any_cons, takesQuotes_inCapitals, ih]

end Piece

namespace Condition

section Substitution

variable {quoted : Bool} {env : Environment} {p : Piece} {ps : List Piece}

theorem capitals_substitutePiece : capitals quoted (substitutePiece env (p.inCapitals quoted)) =
    capitals quoted (substitutePiece env p) := by
  cases p with
  | quoted content => rfl
  | other c =>
    simp only [Piece.inCapitals, substitutePiece, Piece.spelling, capitals_cons,
      capital_capital, capitals_nil]
  | word cs =>
    rw [Piece.inCapitals, substitutePiece, substitutePiece, Environment.get?_capitals]
    cases env.get? (String.ofList cs) with
    | some v => rfl
    | none =>
      simp only [upperString_capitals]
      cases logicalWord? (upperString (String.ofList cs)) with
      | some symbol => rfl
      | none => exact capitals_capitals

theorem quotedAfter_value {v : Value} (h : v.IsQuoteFree) :
    quotedAfter quoted v.literal = quoted := by
  rw [quotedAfter_eq, if_pos h.sameOutline_literal.count_quotes]

/-- Without quotes a variable ends on the side that it starts on. -/
theorem quotedAfter_substitutePiece (hquotes : p.takesQuotes env = false)
    (hword : ∀ cs, p = .word cs → '"' ∉ cs) :
    quotedAfter quoted (substitutePiece env p) = quotedAfter quoted p.spelling := by
  cases p with
  | quoted content | other c => rfl
  | word cs =>
    rw [substitutePiece, Piece.spelling, quotedAfter_of_notMem (hword cs rfl)]
    cases hv : env.get? (String.ofList cs) with
    | some v =>
      refine quotedAfter_value ?_
      cases v with
      | number x => trivial
      | text s => simpa [Piece.takesQuotes, hv, Value.IsQuoteFree] using hquotes
    | none =>
      refine quotedAfter_of_notMem ?_ quoted
      cases hsymbol : logicalWord? (upperString (String.ofList cs)) with
      | none => exact hword cs rfl
      | some symbol =>
        obtain rfl | rfl | rfl := logicalWord?_cases hsymbol <;>
          rw [Option.map_some, Option.getD_some] <;> decide

/-- Pieces in capitals are filled in as they are written, but for the case of what
stays. -/
theorem capitals_flatMap (h : ∀ p ∈ ps, p.takesQuotes env = false ∧
    ∀ cs, p = .word cs → '"' ∉ cs) :
    capitals quoted ((Piece.allInCapitals quoted ps).flatMap (substitutePiece env)) =
      capitals quoted (ps.flatMap (substitutePiece env)) := by
  induction ps generalizing quoted with
  | nil => rfl
  | cons p ps ih =>
    obtain ⟨hp, hps⟩ := List.forall_mem_cons.mp h
    have hbehind : quotedAfter quoted (substitutePiece env (p.inCapitals quoted)) =
        quotedAfter quoted p.spelling := by
      rw [← quotedAfter_capitals quoted, capitals_substitutePiece,
        quotedAfter_capitals, quotedAfter_substitutePiece hp.1 hp.2]
    rw [Piece.allInCapitals, List.flatMap_cons, List.flatMap_cons, capitals_append,
      capitals_append, capitals_substitutePiece, hbehind, ih hps,
      quotedAfter_substitutePiece hp.1 hp.2]

theorem quotedAfter_flatMap (h : ∀ p ∈ ps, p.takesQuotes env = false ∧
    ∀ cs, p = .word cs → '"' ∉ cs) :
    quotedAfter quoted (ps.flatMap (substitutePiece env)) =
      quotedAfter quoted (ps.flatMap Piece.spelling) := by
  induction ps generalizing quoted with
  | nil => rfl
  | cons p ps ih =>
    obtain ⟨hp, hps⟩ := List.forall_mem_cons.mp h
    rw [List.flatMap_cons, List.flatMap_cons, quotedAfter_append, quotedAfter_append,
      quotedAfter_substitutePiece hp.1 hp.2, ih hps]

end Substitution

section Expansion

variable {quoted : Bool} {cs ds : List Char} {env : Environment}

theorem isEnclosed_capitals (depth : Nat) {inside : Bool} :
    isEnclosed depth quoted (capitals inside cs) = isEnclosed depth quoted cs := by
  induction cs generalizing depth quoted inside with
  | nil => rfl
  | cons c cs ih =>
    simp only [capitals_cons, isEnclosed, capital_eq_iff (k := '"') rfl,
      capital_eq_iff (k := '(') rfl, capital_eq_iff (k := ')') rfl, ne_eq, capitals_eq_nil_iff, ih]

theorem head?_capitals {k : Char} (h : isLetter k = false) :
    (capitals quoted cs).head? = some k ↔ cs.head? = some k := by
  cases cs with
  | nil => rfl
  | cons c cs =>
    rw [capitals_cons, List.head?_cons, List.head?_cons, Option.some.injEq, Option.some.injEq,
      capital_eq_iff h]

theorem getLast?_capitals {k : Char} (h : isLetter k = false) :
    (capitals quoted cs).getLast? = some k ↔ cs.getLast? = some k := by
  have hblind : CaseBlind fun c => decide (c = k) :=
    fun _ _ => decide_eq_decide.mpr (capital_eq_iff h)
  have hlast (ds : List Char) :
      ds.getLast? = some k ↔ (ds.map fun c => decide (c = k)).getLast? = some true := by
    rw [List.getLast?_map]
    cases ds.getLast? <;> simp
  rw [hlast, hlast, map_capitals hblind]

theorem dropLast_capitals : (capitals quoted cs).dropLast = capitals quoted cs.dropLast := by
  induction cs generalizing quoted with
  | nil => rfl
  | cons c cs ih =>
    cases cs with
    | nil => rfl
    | cons d ds =>
      rw [List.dropLast_cons_cons, capitals_cons, capitals_cons, List.dropLast_cons_cons,
        ← capitals_cons, ih, capitals_cons]

theorem stripParens_capitals (cs : List Char) :
    stripParens (capitals false cs) = capitals false (stripParens cs) := by
  rw [stripParens, stripParens]
  simp only [head?_capitals (k := '(') rfl, getLast?_capitals (k := ')') rfl, isEnclosed_capitals]
  split
  · next h =>
    obtain ⟨rest, rfl⟩ := List.head?_eq_some_iff.mp h.1
    rw [capitals_cons_of_plain rfl (by decide), List.tail_cons, List.tail_cons, dropLast_capitals,
      trim_capitals]
  · rfl

theorem quotedAfter_stripParens (cs : List Char) :
    quotedAfter false (stripParens cs) = quotedAfter false cs := by
  rw [stripParens]
  split
  · next h =>
    obtain ⟨hhead, hlast, -⟩ := h
    obtain ⟨rest, rfl⟩ := List.head?_eq_some_iff.mp hhead
    obtain ⟨before, hbefore⟩ := List.getLast?_eq_some_iff.mp hlast
    obtain ⟨inner, rfl⟩ : ∃ inner, rest = inner ++ [')'] := by
      cases before with
      | nil => cases hbefore
      | cons c inner => exact ⟨inner, (List.cons.inj hbefore).2⟩
    have hclose (quoted : Bool) : quotedAfter quoted [')'] = quoted := rfl
    have hopen : turn false '(' = false := rfl
    rw [List.tail_cons, List.dropLast_concat, quotedAfter_trim, quotedAfter_cons, hopen,
      quotedAfter_append, hclose]
  · rfl

theorem doubleEqualsAfter_capitals (before : Option Char) :
    doubleEqualsAfter before quoted (capitals quoted cs) =
      capitals quoted (doubleEqualsAfter before quoted cs) := by
  have hbinds : CaseBlind bindsEquals := caseBlind_of_letters (by decide)
  induction cs generalizing before quoted with
  | nil => rfl
  | cons c cs ih =>
    rw [capitals_cons, doubleEqualsAfter, doubleEqualsAfter]
    by_cases hc : c = '"'
    · subst hc
      rw [capital_of_not_isLetter rfl, if_pos rfl, if_pos rfl, turn_quote, ih, capitals_quote]
    · have hquote : capital quoted c ≠ '"' := mt (capital_eq_iff rfl).mp hc
      have hnext : doubleEqualsAfter (some (capital quoted c)) quoted (capitals quoted cs) =
          capitals quoted (doubleEqualsAfter (some c) quoted cs) := by
        rw [← ih]
        refine doubleEqualsAfter_congr _ ?_
        rw [Option.any_some, Option.any_some, hbinds]
      simp only [if_neg hc, if_neg hquote, turn_of_ne hc, hnext, ne_eq,
        head?_capitals (k := '=') rfl, capital_eq_iff (k := '=') rfl]
      split
      · next h =>
        rw [capitals_cons_of_plain rfl (by decide), capitals_cons_of_plain rfl (by decide)]
      · rw [capitals_cons, turn_of_ne hc]

/-- Whether a trimmed condition takes in a variable whose text holds a quote. -/
def takesQuotes (env : Environment) (cs : List Char) : Bool :=
  (Piece.ofText (stripParens cs)).any (Piece.takesQuotes env)

theorem takesQuotes_capitals (env : Environment) (cs : List Char) :
    takesQuotes env (capitals false cs) = takesQuotes env cs := by
  rw [takesQuotes, takesQuotes, stripParens_capitals, Piece.ofText,
    Piece.cut_capitals false (by simp), Piece.any_takesQuotes_allInCapitals, Piece.ofText]

theorem forall_pieces (h : takesQuotes env cs = false) :
    ∀ p ∈ Piece.ofText (stripParens cs), p.takesQuotes env = false ∧
      ∀ cs, p = .word cs → '"' ∉ cs := by
  rw [takesQuotes, List.any_eq_false] at h
  intro p hp
  refine ⟨Bool.eq_false_iff.mpr (h p hp), ?_⟩
  rintro word rfl
  exact Piece.notMem_of_word_mem_cut hp

theorem capitals_expand (h : takesQuotes env cs = false) :
    capitals false (expand env (capitals false cs)) = capitals false (expand env cs) := by
  have hsubstitute : capitals false (substitute env (stripParens (capitals false cs))) =
      capitals false (substitute env (stripParens cs)) := by
    rw [stripParens_capitals, substitute, Piece.ofText, Piece.cut_capitals false (by simp)]
    exact capitals_flatMap (forall_pieces h)
  rw [expand, expand, doubleEquals, doubleEquals, ← doubleEqualsAfter_capitals, hsubstitute,
    doubleEqualsAfter_capitals]

theorem quotedAfter_expand (h : takesQuotes env cs = false) :
    quotedAfter false (expand env cs) = quotedAfter false cs := by
  rw [expand, doubleEquals, quotedAfter_eq, count_quotes_doubleEqualsAfter, ← quotedAfter_eq,
    substitute, quotedAfter_flatMap (forall_pieces h), Piece.ofText, Piece.flatMap_spelling_cut,
    quotedAfter_stripParens]

end Expansion

section Decisions

variable {cs ds : List Char} {env : Environment} {g : Generator}

theorem capitals_expand_of_capitals (h : capitals false cs = capitals false ds)
    (hquotes : takesQuotes env cs = false) :
    capitals false (expand env cs) = capitals false (expand env ds) := by
  have hquotes' : takesQuotes env ds = false := by
    rw [← takesQuotes_capitals, ← h, takesQuotes_capitals, hquotes]
  rw [← capitals_expand hquotes, h, capitals_expand hquotes']

theorem caseless_undecided {condition condition' expanded expanded' : String}
    (h : caseless condition = caseless condition')
    (hexpanded : caseless expanded = caseless expanded') :
    (Fault.undecidedCondition condition expanded).caseless =
      (Fault.undecidedCondition condition' expanded').caseless := by
  refine Prod.ext rfl ?_
  change Text.caseless (_ ++ condition ++ _ ++ expanded ++ _) =
    Text.caseless (_ ++ condition' ++ _ ++ expanded' ++ _)
  simp only [caseless_append, h, hexpanded]

/-- Without quotes in its variables a condition holds in any case, or in none. -/
theorem holds_of_capitals (h : capitals false cs = capitals false ds)
    (hquotes : takesQuotes env cs = false) : RunsAlike id g (holds env cs) (holds env ds) := by
  have hexpand := capitals_expand_of_capitals h hquotes
  have hfault := caseless_undecided (caseless_of_capitals h) (caseless_of_capitals hexpand)
  have hparse := Expr.parse?_of_capitals hexpand .alternative
  simp only [holds, Expr.ofCondition?]
  cases he : Expr.parse? .alternative (expand env ds) with
  | none =>
    rw [he] at hparse
    rw [Option.map_eq_none_iff.mp hparse]
    exact runsAlike_throw hfault
  | some e =>
    rw [he] at hparse
    obtain ⟨e', he', heval⟩ := Option.map_eq_some_iff.mp hparse
    rw [he']
    refine RunsAlike.bind ?_ fun v _ _ _ _ => runsAlike_pure _
    rw [congrFun heval Environment.empty]
    exact runsAlike_adapt fun _ => hfault

/-- A condition that holds, or does not, ends outside text literals. -/
theorem quotedAfter_of_holds {b : Bool} {g' : Generator} (hquotes : takesQuotes env cs = false)
    (h : (holds env cs).run.run g = (.ok b, g')) : quotedAfter false cs = false := by
  rw [← quotedAfter_expand hquotes]
  simp only [holds] at h
  split at h
  · cases h
  · next e he =>
    obtain ⟨ts, hts, -⟩ := Option.bind_eq_some_iff.mp he
    exact quotedAfter_of_tokens? hts

end Decisions

end Condition

theorem Fault.isExpressionFault_eq (f : Fault) :
    f.isExpressionFault = decide (f.kind = "CannotEvaluateExpression") := by
  have hkeyword (k : Keyword) :
      decide ("Invalid" ++ k.title ++ "Syntax" = "CannotEvaluateExpression") = false := by
    cases k <;> decide
  cases f with
  | malformedStatement keyword text => exact (hkeyword keyword).symm
  | _ => rfl

/-- Faults that tell the same in any case are caught alike. -/
theorem Fault.isExpressionFault_of_caseless {f f' : Fault} (h : f.caseless = f'.caseless) :
    f.isExpressionFault = f'.isExpressionFault := by
  have hkind : f.kind = f'.kind := congrArg Prod.fst h
  rw [isExpressionFault_eq, isExpressionFault_eq, hkind]

namespace PrintItem

variable {cs ds : List Char} {env : Environment} {g : Generator}

/-- Whether an argument, evaluated with a generator, is printed as its literal
text. -/
def isLiteral (env : Environment) (cs : List Char) (g : Generator) : Bool :=
  (literalContent? cs).isNone && !isName cs &&
    match (evaluateTrimmed env cs).run.run g with
    | (.error f, _) => f.isExpressionFault
    | _ => false

/-- Whether one of several arguments is printed as its literal text. -/
def anyLiteral (env : Environment) : List PrintItem → Generator → Bool
  | [], _ => false
  | item :: items, g => isLiteral env item.text g ||
      match (evaluate env item.text).run.run g with
      | (.ok _, g) => anyLiteral env items g
      | _ => false

/-- An argument that is not printed as its literal text has the same value in any
case. -/
theorem evaluate_of_capitals (h : capitals false cs = capitals false ds)
    (hliteral : isLiteral env cs g = false) :
    RunsAlike id g (evaluate env cs) (evaluate env ds) := by
  have hcontent : literalContent? cs = literalContent? ds := by
    rw [← literalContent?_capitals, h, literalContent?_capitals]
  have hname : isName cs = isName ds := by rw [← isName_capitals, h, isName_capitals]
  have hupper : upper cs = upper ds := by rw [← upper_capitals, h, upper_capitals]
  have hget : env.get (String.ofList cs) = env.get (String.ofList ds) := by
    simp only [Environment.get, Environment.get?, upperString, String.toList_ofList, hupper]
  rw [isLiteral, hcontent, hname] at hliteral
  rw [evaluate, evaluate, hcontent, hname, hupper, hget]
  cases hc : literalContent? ds with
  | some content => exact runsAlike_pure _
  | none =>
    by_cases hn : isName ds = true
    · simp only [if_pos hn]
      exact runsAlike_refl _ g
    · simp only [if_neg hn]
      refine (evaluateTrimmed_of_capitals h env g).tryCatch fun f f' s s' hs hrun hf => ?_
      obtain rfl : s = g := hs
      have hfault : f.isExpressionFault = false := by simpa [hc, hn, hrun] using hliteral
      have hfault' : f'.isExpressionFault = false := Fault.isExpressionFault_of_caseless hf ▸ hfault
      simp only [hfault, hfault', Bool.false_eq_true, if_false]
      exact runsAlike_throw hf

/-- Arguments none of which is printed as its literal text print the same line in any
case. -/
theorem line_of_capitals {items items' : List PrintItem}
    (h : items.map (inCapitals false) = items'.map (inCapitals false)) (afterComma : Bool)
    (hliteral : anyLiteral env items g = false) :
    RunsAlike id g (line env afterComma items) (line env afterComma items') := by
  induction items generalizing items' afterComma g with
  | nil =>
    obtain rfl := List.map_eq_nil_iff.mp h.symm
    exact runsAlike_pure _
  | cons item items ih =>
    obtain ⟨item', others, rfl, hitem, hothers⟩ := List.map_eq_cons_iff.mp h.symm
    obtain ⟨hfirst, hrest⟩ := Bool.or_eq_false_iff.mp hliteral
    have htext : capitals false item.text = capitals false item'.text :=
      (congrArg PrintItem.text hitem).symm
    have hseparator : item.separator = item'.separator := (congrArg separator hitem).symm
    rw [line, line, hseparator]
    refine (evaluate_of_capitals htext hfirst).bind fun v s s' hs hrun => ?_
    obtain rfl : s = g := hs
    rw [hrun] at hrest
    exact (ih hothers.symm _ hrest).bind fun rest _ _ _ _ => runsAlike_pure _

end PrintItem

end LineBasic
