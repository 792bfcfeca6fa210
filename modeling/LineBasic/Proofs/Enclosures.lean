import LineBasic.Proofs.Substitution

/-!
The pair of parentheses that is stripped from a condition. Outside literals every parenthesis of
an accepted text is a token, and the tokens are balanced, so the pair is removed exactly if the
first parenthesis is closed by the last one. No token goes on with a closing parenthesis or with a
blank, so what is left has the tokens that stood between the two, and those have the same tree.
-/

namespace LineBasic

def EndsTokens (d : Char) : Prop :=
  isNameChar d = false ∧ Text.isDigit d = false ∧ d ∉ ['"', '.', '+', '-', '=', '>', '&', '|']

instance (d : Char) : Decidable (EndsTokens d) := inferInstanceAs (Decidable (_ ∧ _))

section Concat

variable {p : Char → Bool} {d : Char}

theorem takeWhile_concat (h : p d = false) (cs : List Char) :
    (cs ++ [d]).takeWhile p = cs.takeWhile p := by
  induction cs with
  | nil => simp [h]
  | cons c cs ih => simp only [List.cons_append, List.takeWhile_cons, ih]

theorem dropWhile_concat (h : p d = false) (cs : List Char) :
    (cs ++ [d]).dropWhile p = cs.dropWhile p ++ [d] := by
  induction cs with
  | nil => simp [h]
  | cons c cs ih =>
    simp only [List.cons_append, List.dropWhile_cons, ih]
    split <;> rfl

/-- A character that ends tokens is what is left behind the power of ten. -/
theorem Power.scan?_concat (hd : EndsTokens d) (cs : List Char) :
    scan? (cs ++ [d]) = (scan? cs).map fun r => (r.1, r.2 ++ [d]) := by
  obtain ⟨hname, hdigit, hother⟩ := hd
  cases cs with
  | nil =>
    have hmark : ¬ (d = 'e' ∨ d = 'E') := by
      rintro (rfl | rfl) <;> cases hname
    simp [scan?, hmark]
  | cons mark cs =>
    have hsign : frontSign (cs ++ [d]) = frontSign cs := by
      cases cs with
      | nil =>
        have hnot : ¬ (d = '+' ∨ d = '-') := by
          rintro (rfl | rfl) <;> simp at hother
        simp [frontSign, hnot]
      | cons c cs => rfl
    have hlength : (frontSign cs).length ≤ cs.length := by
      cases cs with
      | nil => exact Nat.le_refl 0
      | cons c cs =>
        rw [frontSign]
        split <;> simp
    simp only [List.cons_append, scan?, hsign, List.drop_append_of_le_length hlength,
      takeWhile_concat hdigit, dropWhile_concat hdigit]
    split
    · split <;> rfl
    · rfl

theorem Numeral.withPower_concat (hd : EndsTokens d) (whole : List Char)
    (fraction : Option (List Char)) (cs : List Char) : withPower whole fraction (cs ++ [d]) =
      ((withPower whole fraction cs).1, (withPower whole fraction cs).2 ++ [d]) := by
  unfold withPower
  rw [Power.scan?_concat hd]
  cases Power.scan? cs <;> rfl

theorem Numeral.scan?_concat (hd : EndsTokens d) (cs : List Char) :
    scan? (cs ++ [d]) = (scan? cs).map fun r => (r.1, r.2 ++ [d]) := by
  have hpoint : d ≠ '.' := by
    rintro rfl
    exact hd.2.2 (by decide)
  unfold scan?
  rw [takeWhile_concat hd.2.1, dropWhile_concat hd.2.1]
  generalize cs.takeWhile Text.isDigit = whole
  generalize cs.dropWhile Text.isDigit = rest
  cases rest with
  | nil =>
    cases whole with
    | nil => simp [hpoint]
    | cons w ws =>
      have hlast := withPower_concat hd (w :: ws) none []
      rw [List.nil_append] at hlast
      simp [hpoint, hlast]
  | cons c rest =>
    by_cases hc : c = '.'
    · subst hc
      cases whole with
      | nil =>
        simp only [List.cons_append, takeWhile_concat hd.2.1, dropWhile_concat hd.2.1]
        split
        · rfl
        · simp only [withPower_concat hd, Option.map_some]
      | cons w ws =>
        simp only [List.cons_append, takeWhile_concat hd.2.1, dropWhile_concat hd.2.1,
          withPower_concat hd, Option.map_some]
    · cases whole with
      | nil => simp [hc]
      | cons w ws =>
        have hlast := withPower_concat hd (w :: ws) none (c :: rest)
        rw [List.cons_append] at hlast
        simp [hc, hlast]

theorem Token.scanText?_concat (hd : EndsTokens d) (cs : List Char) :
    scanText? (cs ++ [d]) = (scanText? cs).map fun r => (r.1, r.2 ++ [d]) := by
  have hquote : d ≠ '"' := by
    rintro rfl
    exact hd.2.2 (by decide)
  cases hdrop : cs.dropWhile isInsideQuotes with
  | nil =>
    have hnone : (cs ++ [d]).dropWhile isInsideQuotes = [] := by
      rw [List.dropWhile_append, hdrop]
      simp [isInsideQuotes, hquote]
    simp only [scanText?, hdrop, hnone, Option.map_none]
  | cons c rest =>
    have hcs := List.takeWhile_append_dropWhile (p := isInsideQuotes) (l := cs)
    have hcontent : ∀ c ∈ cs.takeWhile isInsideQuotes, isInsideQuotes c = true :=
      fun c hc => mem_takeWhile hc
    obtain rfl := Shape.eq_quote_of_dropWhile hdrop
    rw [hdrop] at hcs
    generalize cs.takeWhile isInsideQuotes = content at hcs hcontent
    rw [← hcs, List.append_assoc, List.cons_append, scanText?_append hcontent,
      scanText?_append hcontent]
    rfl

theorem Token.scanSymbol?_concat (hd : EndsTokens d) (c : Char) (cs : List Char) :
    scanSymbol? (c :: cs ++ [d]) = (scanSymbol? (c :: cs)).map fun r => (r.1, r.2 ++ [d]) := by
  have hother := hd.2.2
  simp only [List.mem_cons, List.not_mem_nil, or_false, not_or] at hother
  obtain ⟨-, -, -, -, hequals, hgreater, hand, hor⟩ := hother
  have hbehind {e : Char} {ds : List Char} (he : d ≠ e) (hds : ∀ es, ds = e :: es → False)
      (es : List Char) (heq : ds ++ [d] = e :: es) : False := by
    cases ds with
    | nil => exact he (List.cons.inj heq).1
    | cons f ds =>
      rw [(List.cons.inj heq).1] at hds
      exact hds ds rfl
  have hone {e : Char} (h : ∀ es, c :: cs = e :: es → False) (es : List Char)
      (heq : c :: (cs ++ [d]) = e :: es) : False := by
    rw [(List.cons.inj heq).1] at h
    exact h cs rfl
  have htwo {e f : Char} (hf : d ≠ f) (h : ∀ es, c :: cs = e :: f :: es → False) (es : List Char)
      (heq : c :: (cs ++ [d]) = e :: f :: es) : False := by
    obtain ⟨rfl, hrest⟩ := List.cons.inj heq
    exact hbehind hf (fun es hes => h es (by rw [hes])) es hrest
  generalize hxs : c :: cs = xs
  -- Only the symbols that are the front of a longer one look at the character behind them.
  fun_cases scanSymbol? xs
  case case9 hne => exact scanSymbol?.eq_9 _ (hbehind hequals hne)
  case case12 hne hne' => exact scanSymbol?.eq_12 _ (hbehind hgreater hne) (hbehind hequals hne')
  case case14 hne => exact scanSymbol?.eq_14 _ (hbehind hequals hne)
  case case17 h1 h2 h3 h4 h5 h6 h7 h8 h9 h10 h11 h12 h13 h14 h15 h16 =>
    subst hxs
    exact scanSymbol?.eq_17 _ (hone h1) (hone h2) (hone h3) (hone h4) (hone h5) (hone h6)
      (htwo hequals h7) (htwo hequals h8) (hone h9) (htwo hgreater h10) (htwo hequals h11)
      (hone h12) (htwo hequals h13) (hone h14) (htwo hand h15) (htwo hor h16)
  all_goals rfl

/-- A character that ends tokens is what is left behind the first token. -/
theorem Token.scan?_concat (hd : EndsTokens d) (c : Char) (cs : List Char) :
    scan? (c :: cs ++ [d]) = (scan? (c :: cs)).map fun r => (r.1, r.2 ++ [d]) := by
  have hnumeral := Numeral.scan?_concat hd (c :: cs)
  have hsymbol := scanSymbol?_concat hd c cs
  rw [List.cons_append] at hnumeral hsymbol ⊢
  rw [scan?, scan?, hnumeral, hsymbol, scanText?_concat hd, takeWhile_concat hd.1,
    dropWhile_concat hd.1]
  split
  · rfl
  · split
    · rfl
    · cases Numeral.scan? (c :: cs) <;> rfl

/-- The tokens of a character behind a text are cut off apart from those of the text. -/
theorem tokens?_concat (hd : EndsTokens d) (cs : List Char) :
    tokens? (cs ++ [d]) = (tokens? cs).bind fun ts => (tokens? [d]).map (ts ++ ·) := by
  fun_induction tokens? cs with
  | case1 => simp
  | case2 c cs hspace ih => rw [List.cons_append, tokens?, if_pos hspace, ih]
  | case3 c cs hspace t rest hscan ih =>
    have hfurther := Token.scan?_concat hd c cs
    rw [hscan] at hfurther
    rw [tokens?_of_scan? hfurther, ih]
    cases tokens? rest with
    | none => rfl
    | some ts => cases tokens? [d] <;> rfl
  | case4 c cs hspace hscan =>
    have hfurther := Token.scan?_concat hd c cs
    rw [hscan] at hfurther
    exact tokens?_of_scan?_none hspace hfurther

end Concat

section Blanks

open Text

variable {d : Char} {cs : List Char} {ts : List Token}

theorem endsTokens_of_isBlank (h : isBlank d = true) : EndsTokens d := by
  have hne {b : Bool} (hb : b = true → isBlank d = false) : b = false := by
    refine Bool.eq_false_iff.mpr fun hb' => ?_
    rw [hb hb'] at h
    cases h
  refine ⟨hne isBlank_of_isNameChar, hne isBlank_of_isDigit, fun hmem => ?_⟩
  have hall : ∀ c ∈ ['"', '.', '+', '-', '=', '>', '&', '|'], isBlank c = false :=
    forall_mem_of_all (by decide)
  rw [hall d hmem] at h
  cases h

/-- A blank in front of an accepted text stands between tokens. -/
theorem tokens?_of_isBlank (hd : isBlank d = true) (h : tokens? (d :: cs) = some ts) :
    tokens? cs = some ts := by
  by_cases hspace : isSpace d = true
  · rwa [tokens?, if_pos hspace] at h
  · cases hscan : Token.scan? (d :: cs) with
    | none =>
      rw [tokens?_of_scan?_none hspace hscan] at h
      cases h
    | some r =>
      obtain ⟨t, rest⟩ := r
      have hedges : HasEdges t.spelling :=
        Written.hasEdges_word ⟨t, t.spelling, Token.isSpelled_of_scan? hscan, .spelled t⟩
      obtain ⟨c, cs', hspelling, hc⟩ := hedges.first
      have hhead := (Token.spelling_append_of_scan? hscan).1
      simp only [hspelling, List.cons_append, List.cons.injEq] at hhead
      rw [hhead.1, hd] at hc
      cases hc

theorem tokens?_trimLeft (h : tokens? cs = some ts) : tokens? (trimLeft cs) = some ts := by
  induction cs with
  | nil => exact h
  | cons c cs ih =>
    rw [trimLeft, List.dropWhile_cons]
    split
    · next hc => exact ih (tokens?_of_isBlank hc h)
    · exact h

theorem tokens?_trimRight (h : tokens? cs = some ts) : tokens? (trimRight cs) = some ts := by
  induction cs using List.reverseRecOn generalizing ts with
  | nil => exact h
  | append_singleton cs d ih =>
    cases hd : isBlank d with
    | false => rwa [trimRight_concat hd]
    | true =>
      rw [tokens?_concat (endsTokens_of_isBlank hd)] at h
      obtain ⟨front, hfront, h⟩ := Option.bind_eq_some_iff.mp h
      obtain ⟨last, hlast, rfl⟩ := Option.map_eq_some_iff.mp h
      have hnil := tokens?_of_isBlank hd hlast
      rw [tokens?] at hnil
      cases hnil
      rw [trimRight_concat_blank hd, List.append_nil]
      exact ih hfront

/-- Trimming an accepted text leaves its tokens. -/
theorem tokens?_trim (h : tokens? cs = some ts) : tokens? (trim cs) = some ts :=
  tokens?_trimRight (tokens?_trimLeft h)

end Blanks

namespace Text

/-- What a character adds to the number of open parentheses. -/
def parenStep (quoted : Bool) (c : Char) : Int :=
  if quoted then 0 else if c = '(' then 1 else if c = ')' then -1 else 0

/-- The number of opening parentheses less the number of closing ones outside literals. -/
def parenDepth (quoted : Bool) (cs : List Char) : Int :=
  (outside quoted cs).count '(' - (outside quoted cs).count ')'

structure IsBalanced (cs : List Char) : Prop where
  quotes : quotedAfter false cs = false
  depth : parenDepth false cs = 0
  fronts : ∀ front, front <+: cs → 0 ≤ parenDepth false front

section Depth

variable {quoted : Bool} {c : Char} {cs : List Char} {depth : Nat}

theorem parenDepth_nil (quoted : Bool) : parenDepth quoted [] = 0 := rfl

theorem parenDepth_cons (quoted : Bool) (c : Char) (cs : List Char) :
    parenDepth quoted (c :: cs) = parenStep quoted c + parenDepth (turn quoted c) cs := by
  by_cases hquote : c = '"'
  · subst hquote
    cases quoted <;> simp [parenDepth, parenStep, outside]
  · cases quoted with
    | true => simp [parenDepth, parenStep, outside, hquote, turn_of_ne hquote]
    | false =>
      rw [parenDepth, outside_cons_of_ne hquote, turn_of_ne hquote, parenDepth, parenStep,
        if_neg Bool.false_ne_true]
      by_cases hopen : c = '('
      · subst hopen
        simp
        omega
      · by_cases hclose : c = ')'
        · subst hclose
          simp
          omega
        · simp [hopen, hclose]

theorem parenDepth_append (quoted : Bool) (cs ds : List Char) : parenDepth quoted (cs ++ ds) =
    parenDepth quoted cs + parenDepth (quotedAfter quoted cs) ds := by
  simp only [parenDepth, outside_append, List.count_append]
  push_cast
  omega

/-- One step of the check: the number of open parentheses stays positive before the last one. -/
theorem isEnclosed_step (hdepth : 1 ≤ depth) (hcs : cs ≠ []) :
    Condition.isEnclosed depth quoted (c :: cs) = true ↔ ∃ depth' : Nat, 1 ≤ depth' ∧
      (depth' : Int) = depth + parenStep quoted c ∧
        Condition.isEnclosed depth' (turn quoted c) cs = true := by
  have hgo {depth' : Nat} (hpos : 1 ≤ depth') (hstep : (depth' : Int) = depth + parenStep quoted c)
      (heq : Condition.isEnclosed depth quoted (c :: cs) =
        Condition.isEnclosed depth' (turn quoted c) cs) :
      Condition.isEnclosed depth quoted (c :: cs) = true ↔ ∃ depth' : Nat, 1 ≤ depth' ∧
        (depth' : Int) = depth + parenStep quoted c ∧
          Condition.isEnclosed depth' (turn quoted c) cs = true := by
    rw [heq]
    constructor
    · intro h
      exact ⟨depth', hpos, hstep, h⟩
    · rintro ⟨depth'', _, hstep', h⟩
      have hsame : depth'' = depth' := by omega
      rwa [hsame] at h
  by_cases hquote : c = '"'
  · subst hquote
    exact hgo hdepth (by cases quoted <;> simp [parenStep]) (by simp [Condition.isEnclosed])
  · rw [turn_of_ne hquote] at hgo ⊢
    cases quoted with
    | true => exact hgo hdepth (by simp [parenStep]) (by simp [Condition.isEnclosed, hquote])
    | false =>
      by_cases hopen : c = '('
      · subst hopen
        exact hgo (Nat.le_add_left 1 depth) (by simp [parenStep]) (by simp [Condition.isEnclosed])
      · by_cases hclose : c = ')'
        · subst hclose
          -- The last open parenthesis may only be closed by the last character.
          rcases Nat.eq_or_lt_of_le hdepth with rfl | hlt
          · simp [Condition.isEnclosed, hcs, parenStep]
          · refine @hgo (depth - 1) (by omega) (by simp [parenStep]; omega) ?_
            have hne : depth ≠ 1 := by omega
            simp [Condition.isEnclosed, hne]
        · exact hgo hdepth (by simp [parenStep, hopen, hclose])
            (by simp [Condition.isEnclosed, hquote, hopen, hclose])

/-- The check passes if the number of open parentheses stays positive up to the last one. -/
theorem isEnclosed_iff (hdepth : 1 ≤ depth) (quoted : Bool) (cs : List Char) :
    Condition.isEnclosed depth quoted (cs ++ [')']) = true ↔
      ∀ front, front <+: cs → 1 ≤ depth + parenDepth quoted front := by
  induction cs generalizing depth quoted with
  | nil =>
    constructor
    · intro _ front hfront
      rw [List.prefix_nil.mp hfront, parenDepth_nil]
      omega
    · intro _
      cases quoted <;> simp [Condition.isEnclosed]
  | cons c cs ih =>
    rw [List.cons_append, isEnclosed_step hdepth (by simp)]
    constructor
    · rintro ⟨depth', hpos, hstep, h⟩ front hfront
      rcases List.prefix_cons_iff.mp hfront with rfl | ⟨tail, rfl, htail⟩
      · rw [parenDepth_nil]
        omega
      · have hrest := (ih hpos (turn quoted c)).mp h tail htail
        rw [parenDepth_cons]
        omega
    · intro h
      have hfirst := h [c] (List.prefix_cons_iff.mpr (.inr ⟨[], rfl, List.nil_prefix⟩))
      rw [parenDepth_cons, parenDepth_nil] at hfirst
      obtain ⟨depth', hstep⟩ : ∃ depth' : Nat, (depth' : Int) = depth + parenStep quoted c :=
        ⟨(depth + parenStep quoted c).toNat, by omega⟩
      refine ⟨depth', by omega, hstep, (ih (by omega) _).mpr fun front hfront => ?_⟩
      have hrest := h (c :: front) (List.prefix_cons_iff.mpr (.inr ⟨front, rfl, hfront⟩))
      rw [parenDepth_cons] at hrest
      omega

end Depth

end Text

namespace Token

/-- The number of opening parentheses less the number of closing ones. -/
def parenDepth (ts : List Token) : Int := ts.count .lparen - ts.count .rparen

theorem parenDepth_append (ts us : List Token) :
    parenDepth (ts ++ us) = parenDepth ts + parenDepth us := by
  simp only [parenDepth, List.count_append]
  push_cast
  omega

theorem parenDepth_cons (t : Token) (ts : List Token) :
    parenDepth (t :: ts) = parenDepth [t] + parenDepth ts :=
  parenDepth_append [t] ts

end Token

/-- Whatever is derived closes the parentheses that it opens. -/
theorem Expr.Derives.parenDepth {level : Level} {ts : List Token} {e : Expr}
    (h : Derives level ts e) : Token.parenDepth ts = 0 := by
  induction h with
  | number | text | «variable» | invoke => rfl
  | apply _ _ ih =>
    rw [Token.parenDepth_cons (.name _), Token.parenDepth_cons .lparen, Token.parenDepth_append, ih]
    rfl
  | parens _ ih =>
    rw [Token.parenDepth_cons, Token.parenDepth_append, ih]
    rfl
  | plus _ ih | minus _ ih | not _ ih =>
    rw [Token.parenDepth_cons, ih]
    rfl
  | operand _ _ ih => exact ih
  | binary _ _ _ ihleft ihright =>
    rw [Token.parenDepth_append, Token.parenDepth_cons, ihleft, ihright]
    rfl

section Tokens

open Text

variable {cs : List Char} {ts : List Token}

theorem parenDepth_spelling {t : Token} (ht : t.IsSpelled) :
    Text.parenDepth false t.spelling = Token.parenDepth [t] ∧
      quotedAfter false t.spelling = false := by
  have hlook : Written.Look t t.spelling := Written.look ⟨t, t.spelling, ht, .spelled t⟩
  generalize t.spelling = word at hlook
  cases hlook with
  | lparen => decide
  | rparen => decide
  | text h =>
    have hquote := fun hmem => Bool.false_ne_true (h '"' hmem)
    refine ⟨?_, quotedAfter_literal hquote false⟩
    rw [Text.parenDepth, outside_quoted hquote]
    rfl
  | inert hparen _ hword =>
    have hmem {c : Char} (hc : ¬ IsInert c) : c ∉ word := fun h => hc (hword c h)
    refine ⟨?_, quotedAfter_of_notMem (hmem (by decide)) false⟩
    rw [Text.parenDepth, outside_of_notMem (hmem (by decide)),
      List.count_eq_zero.mpr (hmem (by decide)), List.count_eq_zero.mpr (hmem (by decide)),
      Token.parenDepth, List.count_singleton, List.count_singleton]
    simp [hparen]

/-- The parentheses outside the literals of a text are those among its tokens. -/
theorem parenDepth_of_tokens? (h : tokens? cs = some ts) :
    Text.parenDepth false cs = Token.parenDepth ts := by
  fun_induction tokens? cs generalizing ts with
  | case1 =>
    cases h
    rfl
  | case2 c cs hspace ih =>
    have hplain : turn false c = false ∧ parenStep false c = 0 := by
      simp only [isSpace, Bool.or_eq_true, beq_iff_eq] at hspace
      rcases hspace with (((rfl | rfl) | rfl) | rfl) | rfl <;> decide
    rw [Text.parenDepth_cons, hplain.1, hplain.2, ih h, zero_add]
  | case3 c cs hspace t rest hscan ih =>
    obtain ⟨us, hus, rfl⟩ := Option.map_eq_some_iff.mp h
    obtain ⟨hdepth, hquotes⟩ := parenDepth_spelling (Token.isSpelled_of_scan? hscan)
    rw [← (Token.spelling_append_of_scan? hscan).1, Text.parenDepth_append, hquotes, hdepth,
      ih hus, Token.parenDepth_cons t us]
  | case4 => cases h

theorem isEnclosed_of_tokens? (h : tokens? cs = some ts) (depth : Nat) :
    Condition.isEnclosed depth false (cs ++ [')']) = Token.enclosed depth (ts ++ [.rparen]) := by
  fun_induction tokens? cs generalizing ts depth with
  | case1 =>
    cases h
    simp [Condition.isEnclosed, Token.enclosed]
  | case2 c cs hspace ih =>
    have hplain : c ≠ '"' ∧ c ≠ '(' ∧ c ≠ ')' := by
      simp only [isSpace, Bool.or_eq_true, beq_iff_eq] at hspace
      rcases hspace with (((rfl | rfl) | rfl) | rfl) | rfl <;> decide
    rw [List.cons_append, ← ih h]
    simp [Condition.isEnclosed, hplain]
  | case3 c cs hspace t rest hscan ih =>
    obtain ⟨us, hus, rfl⟩ := Option.map_eq_some_iff.mp h
    have hspelled := Token.isSpelled_of_scan? hscan
    rw [← (Token.spelling_append_of_scan? hscan).1, List.append_assoc]
    exact isEnclosed_word ⟨t, t.spelling, hspelled, .spelled t⟩ (by simp) (ih hus) depth
  | case4 => cases h

theorem tokens?_parens (inner : List Char) : tokens? ('(' :: (inner ++ [')'])) =
    (tokens? inner).map fun ts => .lparen :: (ts ++ [.rparen]) := by
  have hopen : Token.scan? ('(' :: (inner ++ [')'])) = some (.lparen, inner ++ [')']) := rfl
  have hlast : tokens? [')'] = some [.rparen] := by decide +kernel
  rw [tokens?_of_scan? hopen, tokens?_concat (by decide), hlast]
  cases tokens? inner <;> rfl

end Tokens

namespace Condition

open Text

variable {cs inner : List Char} {e : Expr}

theorem stripParens_parens (inner : List Char) : stripParens ('(' :: (inner ++ [')'])) =
    if isEnclosed 1 false (inner ++ [')']) = true then trim inner else '(' :: (inner ++ [')']) := by
  have hlast : ('(' :: (inner ++ [')'])).getLast? = some ')' := by
    rw [← List.cons_append, List.getLast?_concat]
  simp [stripParens, hlast, isEnclosed]

theorem stripParens_of_ne (h : ∀ inner, cs ≠ '(' :: (inner ++ [')'])) : stripParens cs = cs := by
  rw [stripParens, if_neg]
  rintro ⟨hhead, hlast, -⟩
  obtain ⟨rest, rfl⟩ := List.head?_eq_some_iff.mp hhead
  obtain ⟨front, hfront⟩ := List.getLast?_eq_some_iff.mp hlast
  cases front with
  | nil => cases hfront
  | cons c inner =>
    obtain ⟨rfl, rfl⟩ := List.cons.inj hfront
    exact h inner rfl

/-- In an accepted text between parentheses the check finds whether the first is closed by the
last. -/
theorem isEnclosed_iff_isBalanced {ts : List Token} (hts : tokens? inner = some ts)
    (h : Expr.Derives .alternative (.lparen :: (ts ++ [.rparen])) e) :
    isEnclosed 1 false (inner ++ [')']) = true ↔ IsBalanced inner := by
  have hdepth : Text.parenDepth false inner = 0 := by
    have htotal := h.parenDepth
    rw [Token.parenDepth_cons .lparen, Token.parenDepth_append] at htotal
    have hopen : Token.parenDepth [.lparen] = 1 := rfl
    have hclose : Token.parenDepth [.rparen] = -1 := rfl
    rw [parenDepth_of_tokens? hts]
    omega
  rw [isEnclosed_iff (Nat.le_refl 1)]
  constructor
  · intro hfronts
    refine ⟨quotedAfter_of_tokens? hts, hdepth, fun front hfront => ?_⟩
    have hpositive := hfronts front hfront
    omega
  · intro hbalanced front hfront
    have hnonnegative := hbalanced.fronts front hfront
    omega

/-- What stands between enclosing parentheses has the tree of the whole. -/
theorem ofCondition?_trim {ts : List Token} (hts : tokens? inner = some ts)
    (h : Expr.Derives .alternative (.lparen :: (ts ++ [.rparen])) e)
    (henclosed : isEnclosed 1 false (inner ++ [')']) = true) :
    Expr.ofCondition? (trim inner) = some e := by
  rw [isEnclosed_of_tokens? hts] at henclosed
  have hinner := h.of_enclosed rfl henclosed
  rw [Expr.ofCondition?, Expr.parse?, tokens?_trim hts, Option.bind_some]
  exact Expr.ofTokens?_eq_some_iff.mpr hinner

/-- Stripping a condition of parentheses leaves its tree, and strips it exactly if what stands
between its first and its last character is balanced outside literals. -/
theorem ofCondition?_stripParens (h : Expr.ofCondition? cs = some e) :
    Expr.ofCondition? (stripParens cs) = some e ∧
      (∀ inner, cs = '(' :: (inner ++ [')']) → IsBalanced inner → stripParens cs = trim inner) ∧
      ((∀ inner, cs = '(' :: (inner ++ [')']) → ¬ IsBalanced inner) → stripParens cs = cs) := by
  by_cases hshape : ∃ inner, cs = '(' :: (inner ++ [')'])
  · obtain ⟨inner, rfl⟩ := hshape
    obtain ⟨us, hus, hderives⟩ := Option.bind_eq_some_iff.mp h
    rw [tokens?_parens] at hus
    obtain ⟨ts, hts, rfl⟩ := Option.map_eq_some_iff.mp hus
    have hderives := Expr.ofTokens?_eq_some_iff.mp hderives
    have hiff := isEnclosed_iff_isBalanced hts hderives
    have hsame {inner' : List Char} (heq : '(' :: (inner ++ [')']) = '(' :: (inner' ++ [')'])) :
        inner' = inner := (List.append_cancel_right (List.cons.inj heq).2).symm
    rw [stripParens_parens]
    by_cases hbalanced : IsBalanced inner
    · have henclosed := hiff.mpr hbalanced
      rw [if_pos henclosed]
      refine ⟨ofCondition?_trim hts hderives henclosed, ?_, ?_⟩
      · intro inner' heq _
        rw [hsame heq]
      · intro hnone
        exact absurd hbalanced (hnone inner rfl)
    · rw [if_neg (mt hiff.mp hbalanced)]
      refine ⟨h, ?_, fun _ => rfl⟩
      intro inner' heq hinner'
      rw [hsame heq] at hinner'
      exact absurd hinner' hbalanced
  · have hne : ∀ inner, cs ≠ '(' :: (inner ++ [')']) := fun inner heq => hshape ⟨inner, heq⟩
    rw [stripParens_of_ne hne]
    exact ⟨h, fun inner heq => absurd heq (hne inner), fun _ => rfl⟩

/-- A parenthesis inside a literal does not count. -/
theorem ofCondition?_stripParens_at_quotedParen :
    Expr.ofCondition? (stripParens "( \")\" == \"(\" )".toList) =
      Expr.ofCondition? "( \")\" == \"(\" )".toList ∧
      stripParens "( \")\" == \"(\" )".toList = "\")\" == \"(\"".toList := by
  obtain ⟨e, he⟩ := Option.isSome_iff_exists.mp
    (by decide +kernel : (Expr.ofCondition? "( \")\" == \"(\" )".toList).isSome = true)
  constructor
  · rw [he]
    exact (ofCondition?_stripParens he).1
  · decide +kernel

end Condition

end LineBasic
