import LineBasic.Proofs.Literals

/-!
The skeleton of a condition is its tree without the content of its text
literals. Texts without double quotes that are put into a condition for its
variables leave the skeleton as it is, whatever the condition.
-/

namespace LineBasic

inductive SameOutline : List Char → List Char → Prop
  | nil : SameOutline [] []
  | char {c : Char} {cs cs' : List Char} (hc : c ≠ '"') (h : SameOutline cs cs') :
      SameOutline (c :: cs) (c :: cs')
  | quoted {s s' cs cs' : List Char} (hs : ∀ c ∈ s, isInsideQuotes c = true)
      (hs' : ∀ c ∈ s', isInsideQuotes c = true) (h : SameOutline cs cs') :
      SameOutline ('"' :: (s ++ '"' :: cs)) ('"' :: (s' ++ '"' :: cs'))

namespace SameOutline

variable {cs cs' ds ds' : List Char}

theorem refl (h : '"' ∉ cs) : SameOutline cs cs := by
  induction cs with
  | nil => exact .nil
  | cons c cs ih =>
    obtain ⟨hc, hcs⟩ := not_or.mp (mt List.mem_cons.mpr h)
    exact .char (Ne.symm hc) (ih hcs)

theorem symm (h : SameOutline cs cs') : SameOutline cs' cs := by
  induction h with
  | nil => exact .nil
  | char hc _ ih => exact .char hc ih
  | quoted hs hs' _ ih => exact .quoted hs' hs ih

theorem append (h : SameOutline cs cs') (h' : SameOutline ds ds') :
    SameOutline (cs ++ ds) (cs' ++ ds') := by
  induction h with
  | nil => exact h'
  | char hc _ ih => exact .char hc ih
  | quoted hs hs' _ ih =>
    rw [List.cons_append, List.cons_append, List.append_assoc, List.append_assoc]
    exact .quoted hs hs' ih

theorem head?_eq (h : SameOutline cs cs') : cs'.head? = cs.head? := by
  cases h with
  | nil => rfl
  | char => rfl
  | quoted => rfl

/-- A run of characters other than quotes ends at the same place. -/
theorem span {p : Char → Bool} (hp : p '"' = false) (h : SameOutline cs cs') :
    cs'.takeWhile p = cs.takeWhile p ∧ SameOutline (cs.dropWhile p) (cs'.dropWhile p) := by
  induction h with
  | nil => exact ⟨rfl, .nil⟩
  | @char c cs cs' hc h ih =>
    cases hpc : p c with
    | true =>
      simp only [List.takeWhile_cons, List.dropWhile_cons, hpc, if_true, ih.1, true_and]
      exact ih.2
    | false =>
      simp only [List.takeWhile_cons, List.dropWhile_cons, hpc, Bool.false_eq_true, if_false,
        true_and]
      exact .char hc h
  | quoted hs hs' h =>
    simp only [List.takeWhile_cons, List.dropWhile_cons, hp, Bool.false_eq_true, if_false, true_and]
    exact .quoted hs hs' h

end SameOutline

inductive SameScan {α : Type} (same : α → α → Prop) :
    Option (α × List Char) → Option (α × List Char) → Prop
  | none : SameScan same none none
  | some {a a' : α} {rest rest' : List Char} (ha : same a a') (h : SameOutline rest rest') :
      SameScan same (some (a, rest)) (some (a', rest'))

section Scans

variable {cs cs' : List Char}

theorem Power.sameScan (h : SameOutline cs cs') : SameScan Eq (scan? cs) (scan? cs') := by
  cases h with
  | nil => exact .none
  | quoted => exact .none
  | @char mark cs cs' _ h =>
    have hsign : frontSign cs' = frontSign cs := by
      cases h <;> rfl
    have hrest : SameOutline (cs.drop (frontSign cs).length) (cs'.drop (frontSign cs).length) := by
      cases h with
      | nil => exact .nil
      | quoted hs hs' h => exact .quoted hs hs' h
      | @char c cs cs' hc h =>
        unfold frontSign
        simp only
        split
        · exact h
        · exact .char hc h
    obtain ⟨htake, hdrop⟩ := hrest.span (p := Text.isDigit) (by decide)
    simp only [scan?, hsign, htake]
    split
    · split
      · exact .none
      · exact .some rfl hdrop
    · exact .none

theorem Numeral.sameScan_withPower (whole : List Char) (fraction : Option (List Char))
    (h : SameOutline cs cs') :
    SameScan Eq (some (withPower whole fraction cs)) (some (withPower whole fraction cs')) := by
  have hpower := Power.sameScan h
  unfold withPower
  generalize Power.scan? cs = r at hpower
  generalize Power.scan? cs' = r' at hpower
  cases hpower with
  | none => exact .some rfl h
  | some heq hrest =>
    subst heq
    exact .some rfl hrest

theorem Numeral.sameScan (h : SameOutline cs cs') : SameScan Eq (scan? cs) (scan? cs') := by
  obtain ⟨htake, hdrop⟩ := h.span (p := Text.isDigit) (by decide)
  unfold scan?
  rw [htake]
  generalize cs.dropWhile Text.isDigit = rest at hdrop
  generalize cs'.dropWhile Text.isDigit = rest' at hdrop
  have hplain (whole : List Char) (h : SameOutline rest rest') :=
    sameScan_withPower whole none h
  cases cs.takeWhile Text.isDigit with
  | nil =>
    cases hdrop with
    | nil => exact .none
    | quoted => exact .none
    | @char c rest rest' hc hdrop =>
      by_cases hpoint : c = '.'
      · subst hpoint
        obtain ⟨htake, hdrop⟩ := hdrop.span (p := Text.isDigit) (by decide)
        simp only [htake]
        split
        · exact .none
        · exact sameScan_withPower _ _ hdrop
      · simp only [List.cons.injEq, hpoint, false_and, imp_self, implies_true]
        exact .none
  | cons d ds =>
    cases hdrop with
    | nil => exact hplain _ .nil
    | quoted hs hs' hdrop => exact hplain _ (.quoted hs hs' hdrop)
    | @char c rest rest' hc hdrop =>
      by_cases hpoint : c = '.'
      · subst hpoint
        obtain ⟨htake, hdrop⟩ := hdrop.span (p := Text.isDigit) (by decide)
        simp only [htake]
        exact sameScan_withPower _ _ hdrop
      · simp only [List.cons.injEq, hpoint, false_and, imp_self, implies_true]
        exact hplain _ (.char hc hdrop)

theorem Token.scanSymbol?_of_sameOutline {t : Token} {rest : List Char}
    (h : SameOutline cs cs') (hscan : scanSymbol? cs = some (t, rest)) :
    ∃ rest', scanSymbol? cs' = some (t, rest') ∧ SameOutline rest rest' := by
  have hexact {c : Char} {ds ds' : List Char} (hds : ∀ es, ds = c :: es → False)
      (hc : c ≠ '"') (h : SameOutline ds ds') (es : List Char) (heq : ds' = c :: es) : False := by
    subst heq
    cases h with
    | char => exact hds _ rfl
    | quoted => exact hc rfl
  unfold scanSymbol? at hscan
  split at hscan
  case h_9 hne =>
    cases hscan
    cases h with
    | char _ h => exact ⟨_, scanSymbol?.eq_9 _ (hexact hne (by decide) h), h⟩
  case h_12 hne hne' =>
    cases hscan
    cases h with
    | char _ h =>
      exact ⟨_, scanSymbol?.eq_12 _ (hexact hne (by decide) h) (hexact hne' (by decide) h), h⟩
  case h_14 hne =>
    cases hscan
    cases h with
    | char _ h => exact ⟨_, scanSymbol?.eq_14 _ (hexact hne (by decide) h), h⟩
  case h_17 => cases hscan
  case h_7 | h_8 | h_10 | h_11 | h_13 | h_15 | h_16 =>
    cases hscan
    cases h with
    | char _ h =>
      cases h with
      | char _ h => exact ⟨_, rfl, h⟩
  all_goals
    cases hscan
    cases h with
    | char _ h => exact ⟨_, rfl, h⟩

theorem Token.sameScan_symbol (h : SameOutline cs cs') :
    SameScan Eq (scanSymbol? cs) (scanSymbol? cs') := by
  cases hscan : scanSymbol? cs with
  | some r =>
    obtain ⟨rest', hscan', hrest⟩ := scanSymbol?_of_sameOutline h hscan
    rw [hscan']
    exact .some rfl hrest
  | none =>
    cases hscan' : scanSymbol? cs' with
    | some r =>
      obtain ⟨rest, hsome, -⟩ := scanSymbol?_of_sameOutline h.symm hscan'
      rw [hscan] at hsome
      cases hsome
    | none => exact .none

end Scans

def Token.blanked : Token → Token
  | .text _ => .text []
  | t => t

section Tokens

variable {cs cs' : List Char}

theorem Token.sameScan (h : SameOutline cs cs') :
    SameScan (fun t t' => t'.blanked = t.blanked) (scan? cs) (scan? cs') := by
  cases h with
  | nil => exact .none
  | quoted hs hs' h =>
    rw [scan?, scan?, if_pos rfl, if_pos rfl, scanText?_append hs, scanText?_append hs']
    exact .some rfl h
  | @char c cs cs' hc h =>
    rw [scan?, scan?, if_neg hc, if_neg hc]
    split
    · obtain ⟨htake, hdrop⟩ := h.span (p := isNameChar) (by decide)
      rw [htake]
      exact .some rfl hdrop
    · have hnumeral := Numeral.sameScan (.char hc h)
      generalize Numeral.scan? (c :: cs) = r at hnumeral
      generalize Numeral.scan? (c :: cs') = r' at hnumeral
      cases hnumeral with
      | some heq hrest =>
        subst heq
        exact .some rfl hrest
      | none =>
        have hsymbol := sameScan_symbol (.char hc h)
        simp only
        generalize scanSymbol? (c :: cs) = r at hsymbol
        generalize scanSymbol? (c :: cs') = r' at hsymbol
        cases hsymbol with
        | none => exact .none
        | some heq hrest =>
          subst heq
          exact .some rfl hrest

theorem tokens?_of_scan?_none {c : Char} (hspace : ¬ isSpace c = true)
    (h : Token.scan? (c :: cs) = none) : tokens? (c :: cs) = none := by
  rw [tokens?, if_neg hspace]
  split
  · next hscan =>
    rw [h] at hscan
    cases hscan
  · rfl

/-- Texts of the same outline are cut into the same tokens, but for the content
of the texts. -/
theorem SameOutline.tokens? (h : SameOutline cs cs') :
    (tokens? cs').map (·.map Token.blanked) = (tokens? cs).map (·.map Token.blanked) := by
  have hcons (t : Token) (r : Option (List Token)) :
      (r.map (t :: ·)).map (·.map Token.blanked) =
        (r.map (·.map Token.blanked)).map (t.blanked :: ·) := by
    cases r <;> rfl
  fun_induction LineBasic.tokens? cs generalizing cs' with
  | case1 =>
    cases h
    rw [LineBasic.tokens?]
  | case2 c cs hspace ih =>
    cases h with
    | char _ h =>
      rw [LineBasic.tokens?, if_pos hspace]
      exact ih h
    | quoted => cases hspace
  | case3 c cs hspace t rest hscan ih =>
    have hsame := Token.sameScan h
    rw [hscan] at hsame
    generalize hscan' : Token.scan? cs' = r' at hsame
    cases hsame with
    | some ht hrest => rw [tokens?_of_scan? hscan', hcons, hcons, ih hrest, ht]
  | case4 c cs hspace hscan =>
    have hsame := Token.sameScan h
    rw [hscan] at hsame
    generalize hscan' : Token.scan? cs' = r' at hsame
    cases hsame with
    | none =>
      cases h with
      | char => rw [tokens?_of_scan?_none hspace hscan']
      | quoted => rw [tokens?_of_scan?_none hspace hscan']

end Tokens

section Quotes

variable {cs : List Char} {ts : List Token}

theorem isInsideQuotes_of_notMem (h : '"' ∉ cs) : ∀ c ∈ cs, isInsideQuotes c = true := by
  intro c hc
  have hne : c ≠ '"' := fun heq => h (heq ▸ hc)
  simp [isInsideQuotes, hne]

def Token.isText : Token → Bool
  | .text _ => true
  | _ => false

theorem count_quotes_eq_zero (h : ∀ c ∈ cs, c ≠ '"') : cs.count '"' = 0 :=
  List.count_eq_zero.mpr fun hmem => h _ hmem rfl

theorem Token.IsSpelled.count_quotes {t : Token} (h : t.IsSpelled) :
    t.spelling.count '"' = 2 * [t].countP Token.isText := by
  cases t with
  | number x => exact count_quotes_eq_zero fun c hc => (Numeral.IsSpelled.ne_of_mem h c hc).1
  | text content =>
    have hcontent : content.count '"' = 0 := by
      apply count_quotes_eq_zero
      rintro c hc rfl
      cases h _ hc
    rw [spelling, List.count_append, List.count_cons, hcontent]
    rfl
  | name cs =>
    obtain ⟨c, rest, rfl, hstart, hrest⟩ := h
    apply count_quotes_eq_zero
    rintro d hd rfl
    rcases List.mem_cons.mp hd with rfl | hd
    · cases hstart
    · cases hrest _ hd
  | operator op => cases op <;> decide
  | bang | lparen | rparen => decide

/-- Two quotes belong to each text among the tokens. -/
theorem count_quotes_of_tokens? (h : tokens? cs = some ts) :
    cs.count '"' = 2 * ts.countP Token.isText := by
  fun_induction tokens? cs generalizing ts with
  | case1 =>
    cases h
    rfl
  | case2 c cs hspace ih =>
    have hc : c ≠ '"' := by
      rintro rfl
      cases hspace
    rw [List.count_cons_of_ne hc, ih h]
  | case3 c cs _ t rest hscan ih =>
    obtain ⟨ts, hts, rfl⟩ := Option.map_eq_some_iff.mp h
    rw [← (Token.spelling_append_of_scan? hscan).1, List.count_append, ih hts,
      (Token.isSpelled_of_scan? hscan).count_quotes, ← Nat.mul_add, ← List.countP_append,
      List.singleton_append]
  | case4 => cases h

theorem SameOutline.count_quotes {cs' : List Char} (h : SameOutline cs cs') :
    cs.count '"' % 2 = 0 := by
  induction h with
  | nil => rfl
  | char hc _ ih => rw [List.count_cons_of_ne hc, ih]
  | @quoted s s' cs cs' hs hs' _ ih =>
    have hcontent : s.count '"' = 0 := by
      apply count_quotes_eq_zero
      rintro c hc rfl
      cases hs _ hc
    rw [List.count_cons_self, List.count_append, List.count_cons_self, hcontent]
    omega

theorem count_quotes_doubleEqualsAfter (before : Option Char) (quoted : Bool) :
    (Condition.doubleEqualsAfter before quoted cs).count '"' = cs.count '"' := by
  induction cs generalizing before quoted with
  | nil => rfl
  | cons c cs ih =>
    rw [Condition.doubleEqualsAfter]
    split
    · rw [List.count_cons, List.count_cons, ih]
    · split
      · next hc hequals =>
        rw [hequals.1, List.count_cons_of_ne (by decide), List.count_cons_of_ne (by decide),
          List.count_cons_of_ne (by decide), ih]
      · rw [List.count_cons, List.count_cons, ih]

theorem SameOutline.doubleEqualsAfter {cs' : List Char} (before : Option Char)
    (h : SameOutline cs cs') :
    SameOutline (Condition.doubleEqualsAfter before false cs)
      (Condition.doubleEqualsAfter before false cs') := by
  induction h generalizing before with
  | nil => exact .nil
  | @char c cs cs' hc h ih =>
    rw [Condition.doubleEqualsAfter, Condition.doubleEqualsAfter, if_neg hc, if_neg hc, h.head?_eq]
    split
    · exact .char (by decide) (.char (by decide) (ih _))
    · exact .char hc (ih _)
  | quoted hs hs' _ ih =>
    rw [Condition.doubleEqualsAfter_quoted hs, Condition.doubleEqualsAfter_quoted hs']
    exact .quoted hs hs' (ih _)

end Quotes

section Substitution

variable {env env' : Environment} {s : String} {v : Value}

theorem Value.IsQuoteFree.sameOutline_literal (h : v.IsQuoteFree) :
    SameOutline v.literal v.literal := by
  cases v with
  | text t =>
    have ht : ∀ c ∈ t.toList, isInsideQuotes c = true := isInsideQuotes_of_notMem h
    exact .quoted ht ht .nil
  | number x =>
    apply SameOutline.refl
    unfold literal
    simp only
    split
    · decide
    · decide
    · exact quote_notMem_numberText x

/-- An environment holds a text where another one holds texts, and otherwise
the same. -/
def Environment.Replaces (s : String) (env env' : Environment) : Prop :=
  ∀ name, env'.get? name = env.get? name ∨
    ∃ t, env.get? name = some (.text t) ∧ env'.get? name = some (.text s)

/-- Whether a piece has no double quote but those around a text literal. -/
def Piece.IsClosed : Piece → Prop
  | .quoted content => ∀ c ∈ content, isInsideQuotes c = true
  | .word cs => '"' ∉ cs
  | .other c => c ≠ '"'

theorem Piece.mem_of_mem_cut {afterWord : Bool} {cs : List Char} {c : Char}
    (h : .other c ∈ cut afterWord cs) : c ∈ cs := by
  fun_induction cut afterWord cs with
  | case1 => cases h
  | case2 afterWord cs _ rest hrest ih =>
    rcases List.mem_cons.mp h with heq | h
    · cases heq
    · have hmem : c ∈ cs.dropWhile isInsideQuotes := by
        rw [hrest]
        exact List.mem_cons_of_mem _ (ih h)
      exact List.mem_cons_of_mem _ ((List.dropWhile_sublist _).mem hmem)
  | case3 afterWord cs _ ih =>
    rcases List.mem_cons.mp h with heq | h
    · cases heq
      exact List.mem_cons_self
    · exact List.mem_cons_of_mem _ (ih h)
  | case4 afterWord d cs _ _ ih =>
    rcases List.mem_cons.mp h with heq | h
    · cases heq
    · exact List.mem_cons_of_mem _ ((List.dropWhile_sublist _).mem (ih h))
  | case5 afterWord d cs _ _ ih =>
    rcases List.mem_cons.mp h with heq | h
    · cases heq
      exact List.mem_cons_self
    · exact List.mem_cons_of_mem _ (ih h)

/-- Pieces are closed, except for one quote without a partner. -/
theorem Piece.isClosed_of_mem_cut (afterWord : Bool) (cs : List Char) :
    (∀ p ∈ cut afterWord cs, p.IsClosed) ∨
      ∃ before after, cut afterWord cs = before ++ .other '"' :: after ∧
        (∀ p ∈ before, p.IsClosed) ∧ ∀ p ∈ after, p.IsClosed := by
  have hcons {p : Piece} {ps : List Piece} (hp : p.IsClosed)
      (h : (∀ p ∈ ps, p.IsClosed) ∨ ∃ before after, ps = before ++ .other '"' :: after ∧
        (∀ p ∈ before, p.IsClosed) ∧ ∀ p ∈ after, p.IsClosed) :
      (∀ q ∈ p :: ps, q.IsClosed) ∨ ∃ before after, p :: ps = before ++ .other '"' :: after ∧
        (∀ p ∈ before, p.IsClosed) ∧ ∀ p ∈ after, p.IsClosed := by
    rcases h with h | ⟨before, after, rfl, hbefore, hafter⟩
    · exact .inl (List.forall_mem_cons.mpr ⟨hp, h⟩)
    · exact .inr ⟨p :: before, after, rfl, List.forall_mem_cons.mpr ⟨hp, hbefore⟩, hafter⟩
  fun_induction cut afterWord cs with
  | case1 => exact .inl (List.forall_mem_nil _)
  | case2 afterWord cs _ rest _ ih =>
    have hquoted : (Piece.quoted (cs.takeWhile isInsideQuotes)).IsClosed :=
      fun c hc => mem_takeWhile hc
    exact hcons hquoted ih
  | case3 afterWord cs hnone ih =>
    -- the quote has no partner, so no other quote follows
    have hplain : '"' ∉ cs := by
      intro hmem
      have hsplit : cs.takeWhile isInsideQuotes ++ cs.dropWhile isInsideQuotes = cs :=
        List.takeWhile_append_dropWhile
      rw [hnone, List.append_nil] at hsplit
      rw [← hsplit] at hmem
      cases mem_takeWhile hmem
    rcases ih with ih | ⟨before, after, hcut, -, -⟩
    · exact .inr ⟨[], cut false cs, rfl, List.forall_mem_nil _, ih⟩
    · have hmem : .other '"' ∈ cut false cs := by
        rw [hcut]
        exact List.mem_append_right _ List.mem_cons_self
      exact absurd (mem_of_mem_cut hmem) hplain
  | case4 afterWord c cs hc _ ih =>
    have hword : (Piece.word (c :: cs.takeWhile Text.isWord)).IsClosed := by
      intro hmem
      rcases List.mem_cons.mp hmem with heq | hmem
      · exact hc heq.symm
      · have hquote : Text.isWord '"' = false := by decide
        rw [mem_takeWhile hmem] at hquote
        cases hquote
    exact hcons hword ih
  | case5 afterWord c cs hc _ ih => exact hcons hc ih

theorem sameOutline_substitutePiece {p : Piece} (hp : p.IsClosed) (hs : '"' ∉ s.toList)
    (henv : env.IsQuoteFree) (h : env.Replaces s env') :
    SameOutline (Condition.substitutePiece env p) (Condition.substitutePiece env' p) := by
  cases p with
  | quoted content => exact .quoted hp hp .nil
  | other c => exact .char hp .nil
  | word cs =>
    have hkept : SameOutline
        (((Condition.logicalWord? (Text.upperString (String.ofList cs))).map String.toList).getD cs)
        (((Condition.logicalWord? (Text.upperString (String.ofList cs))).map String.toList).getD cs)
        := by
      apply SameOutline.refl
      cases hsymbol : Condition.logicalWord? (Text.upperString (String.ofList cs)) with
      | none => exact hp
      | some symbol =>
        obtain rfl | rfl | rfl := logicalWord?_cases hsymbol
        all_goals
          rw [Option.map_some, Option.getD_some]
          decide
    rcases h (String.ofList cs) with heq | ⟨t, ht, ht'⟩
    · rw [Condition.substitutePiece, Condition.substitutePiece, heq]
      cases hv : env.get? (String.ofList cs) with
      | none => exact hkept
      | some v => exact (henv _ _ hv).sameOutline_literal
    · rw [Condition.substitutePiece, Condition.substitutePiece, ht, ht']
      exact .quoted (isInsideQuotes_of_notMem (henv _ _ ht)) (isInsideQuotes_of_notMem hs) .nil

theorem sameOutline_flatMap {ps : List Piece} (hps : ∀ p ∈ ps, p.IsClosed) (hs : '"' ∉ s.toList)
    (henv : env.IsQuoteFree) (h : env.Replaces s env') :
    SameOutline (ps.flatMap (Condition.substitutePiece env))
      (ps.flatMap (Condition.substitutePiece env')) := by
  induction ps with
  | nil => exact .nil
  | cons p ps ih =>
    have hp : p.IsClosed := hps p List.mem_cons_self
    rw [List.flatMap_cons, List.flatMap_cons]
    exact (sameOutline_substitutePiece hp hs henv h).append
      (ih fun q hq => hps q (List.mem_cons_of_mem p hq))

/-- Whether texts without quotes are put into a condition leaves no trace in its
tokens but the content of texts. -/
theorem tokens?_expand (hs : '"' ∉ s.toList) (henv : env.IsQuoteFree) (h : env.Replaces s env')
    (cs : List Char) :
    (tokens? (Condition.expand env' cs)).map (·.map Token.blanked) =
      (tokens? (Condition.expand env cs)).map (·.map Token.blanked) := by
  rcases Piece.isClosed_of_mem_cut false (Condition.stripParens cs) with
    hclosed | ⟨before, after, hcut, hbefore, hafter⟩
  · exact ((sameOutline_flatMap hclosed hs henv h).doubleEqualsAfter none).tokens?
  · -- an odd number of quotes, whatever is put in
    have hnone {env₁ env₂ : Environment}
        (hsame : ∀ ps : List Piece, (∀ p ∈ ps, p.IsClosed) →
          SameOutline (ps.flatMap (Condition.substitutePiece env₁))
            (ps.flatMap (Condition.substitutePiece env₂))) :
        tokens? (Condition.expand env₁ cs) = none := by
      cases htokens : tokens? (Condition.expand env₁ cs) with
      | none => rfl
      | some ts =>
        have hcount := count_quotes_of_tokens? htokens
        have hbefore := (hsame before hbefore).count_quotes
        have hafter := (hsame after hafter).count_quotes
        rw [Condition.expand, Condition.doubleEquals, count_quotes_doubleEqualsAfter,
          Condition.substitute, Piece.ofText, hcut, List.flatMap_append, List.flatMap_cons,
          List.count_append, List.count_append] at hcount
        have hquote : (Condition.substitutePiece env₁ (.other '"')).count '"' = 1 := rfl
        omega
    rw [hnone fun ps hps => sameOutline_flatMap hps hs henv h,
      hnone fun ps hps => (sameOutline_flatMap hps hs henv h).symm]

end Substitution

namespace Expr

def skeleton : Expr → Expr
  | .text _ => .text ""
  | .apply f e => .apply f e.skeleton
  | .unary op e => .unary op e.skeleton
  | .binary op a b => .binary op a.skeleton b.skeleton
  | e => e

section Trees

variable {level : Level} {ts us : List Token} {e : Expr}

theorem Derives.blanked (h : Derives level ts e) :
    Derives level (ts.map Token.blanked) e.skeleton := by
  induction h with
  | number x => exact .number x
  | text content => exact .text []
  | «variable» cs => exact .variable cs
  | invoke cs => exact .invoke cs
  | apply cs _ ih =>
    rw [List.map_cons, List.map_cons, List.map_append]
    exact .apply cs ih
  | parens _ ih =>
    rw [List.map_cons, List.map_append]
    exact .parens ih
  | plus _ ih => exact .plus ih
  | minus _ ih => exact .minus ih
  | not _ ih => exact .not ih
  | operand hlevel _ ih => exact .operand hlevel ih
  | binary hop _ _ ihleft ihright =>
    rw [List.map_append, List.map_cons]
    exact .binary hop ihleft ihright

theorem exists_of_blanked_cons {t : Token} (ht : ∀ content, t ≠ .text content)
    (h : ts.map Token.blanked = t :: us) :
    ∃ rest, ts = t :: rest ∧ rest.map Token.blanked = us := by
  obtain ⟨t', rest, rfl, ht', hrest⟩ := List.map_eq_cons_iff.mp h
  cases t' with
  | text content => exact absurd ht'.symm (ht [])
  | _ => exact ⟨rest, by rw [← ht']; rfl, hrest⟩

theorem exists_of_blanked_enclosed (h : ts.map Token.blanked = us ++ [.rparen]) :
    ∃ inner, ts = inner ++ [.rparen] ∧ inner.map Token.blanked = us := by
  obtain ⟨inner, last, rfl, hinner, hlast⟩ := List.map_eq_append_iff.mp h
  obtain ⟨rest, rfl, hrest⟩ := exists_of_blanked_cons (by simp) hlast
  rw [List.map_eq_nil_iff.mp hrest]
  exact ⟨inner, rfl, hinner⟩

/-- Every tree of tokens without the content of their texts is the skeleton of
a tree of the tokens. -/
theorem Derives.exists_of_blanked (h : Derives level us e) (hts : ts.map Token.blanked = us) :
    ∃ e', Derives level ts e' ∧ e'.skeleton = e := by
  induction h generalizing ts with
  | number x =>
    obtain ⟨rest, rfl, hrest⟩ := exists_of_blanked_cons (by simp) hts
    rw [List.map_eq_nil_iff.mp hrest]
    exact ⟨_, .number x, rfl⟩
  | text content =>
    obtain ⟨t, rfl, ht⟩ := List.map_eq_singleton_iff.mp hts
    cases t with
    | text content' =>
      cases ht
      exact ⟨_, .text content', rfl⟩
    | _ => cases ht
  | «variable» cs =>
    obtain ⟨rest, rfl, hrest⟩ := exists_of_blanked_cons (by simp) hts
    rw [List.map_eq_nil_iff.mp hrest]
    exact ⟨_, .variable cs, rfl⟩
  | invoke cs =>
    obtain ⟨rest, rfl, hrest⟩ := exists_of_blanked_cons (by simp) hts
    obtain ⟨rest, rfl, hlast⟩ := exists_of_blanked_cons (by simp) hrest
    obtain ⟨rest, rfl, hnil⟩ := exists_of_blanked_cons (by simp) hlast
    rw [List.map_eq_nil_iff.mp hnil]
    exact ⟨_, .invoke cs, rfl⟩
  | apply cs _ ih =>
    obtain ⟨rest, rfl, hrest⟩ := exists_of_blanked_cons (by simp) hts
    obtain ⟨rest, rfl, henclosed⟩ := exists_of_blanked_cons (by simp) hrest
    obtain ⟨inner, rfl, hinner⟩ := exists_of_blanked_enclosed henclosed
    obtain ⟨e', he', rfl⟩ := ih hinner
    exact ⟨_, .apply cs he', rfl⟩
  | parens _ ih =>
    obtain ⟨rest, rfl, henclosed⟩ := exists_of_blanked_cons (by simp) hts
    obtain ⟨inner, rfl, hinner⟩ := exists_of_blanked_enclosed henclosed
    obtain ⟨e', he', rfl⟩ := ih hinner
    exact ⟨_, .parens he', rfl⟩
  | plus _ ih =>
    obtain ⟨rest, rfl, hrest⟩ := exists_of_blanked_cons (by simp) hts
    obtain ⟨e', he', rfl⟩ := ih hrest
    exact ⟨_, .plus he', rfl⟩
  | minus _ ih =>
    obtain ⟨rest, rfl, hrest⟩ := exists_of_blanked_cons (by simp) hts
    obtain ⟨e', he', rfl⟩ := ih hrest
    exact ⟨_, .minus he', rfl⟩
  | not _ ih =>
    obtain ⟨rest, rfl, hrest⟩ := exists_of_blanked_cons (by simp) hts
    obtain ⟨e', he', rfl⟩ := ih hrest
    exact ⟨_, .not he', rfl⟩
  | operand hlevel _ ih =>
    obtain ⟨e', he', rfl⟩ := ih hts
    exact ⟨e', .operand hlevel he', rfl⟩
  | binary hop _ _ ihleft ihright =>
    obtain ⟨left, right, rfl, hleft, hright⟩ := List.map_eq_append_iff.mp hts
    obtain ⟨right, rfl, hoperand⟩ := exists_of_blanked_cons (by simp) hright
    obtain ⟨a, ha, rfl⟩ := ihleft hleft
    obtain ⟨b, hb, rfl⟩ := ihright hoperand
    exact ⟨_, .binary hop ha hb, rfl⟩

/-- The parser does not look at the content of texts. -/
theorem ofTokens?_blanked (level : Level) (ts : List Token) :
    ofTokens? level (ts.map Token.blanked) = (ofTokens? level ts).map skeleton := by
  apply Option.ext
  intro e
  rw [ofTokens?_eq_some_iff, Option.map_eq_some_iff]
  constructor
  · intro h
    obtain ⟨e', he', rfl⟩ := h.exists_of_blanked rfl
    exact ⟨e', ofTokens?_eq_some_iff.mpr he', rfl⟩
  · rintro ⟨e', he', rfl⟩
    exact (ofTokens?_eq_some_iff.mp he').blanked

end Trees

end Expr

/-- The tree of a condition, expanded in an environment, without the content of
its texts. -/
def Condition.skeleton? (env : Environment) (cs : List Char) : Option Expr :=
  (Expr.ofCondition? (expand env cs)).map Expr.skeleton

section Skeletons

variable {env env' : Environment} {s : String}

theorem Condition.skeleton?_of_tokens {cs cs' : List Char}
    (h : (tokens? (expand env' cs')).map (·.map Token.blanked) =
      (tokens? (expand env cs)).map (·.map Token.blanked)) :
    skeleton? env' cs' = skeleton? env cs := by
  have hskeleton (r : Option (List Token)) :
      (r.bind (Expr.ofTokens? .alternative)).map Expr.skeleton =
        (r.map (·.map Token.blanked)).bind (Expr.ofTokens? .alternative) := by
    cases r with
    | none => rfl
    | some ts => exact (Expr.ofTokens?_blanked _ ts).symm
  rw [skeleton?, skeleton?, Expr.ofCondition?, Expr.ofCondition?, Expr.parse?, Expr.parse?,
    hskeleton, hskeleton, h]

/-- Texts without quotes leave the skeleton of every condition as it is. -/
theorem Condition.skeleton?_of_replaces (hs : '"' ∉ s.toList) (henv : env.IsQuoteFree)
    (h : env.Replaces s env') (cs : List Char) : skeleton? env' cs = skeleton? env cs :=
  skeleton?_of_tokens (tokens?_expand hs henv h cs)

def Environment.single (name : String) (v : Value) : Environment :=
  ⟨(∅ : Std.ExtTreeMap String Value compare).insert name v⟩

theorem Environment.get?_single (name key : String) (v : Value) :
    (single name v).get? key = if name = Text.upperString key then some v else none := by
  simp [single, get?, Std.ExtTreeMap.getElem?_insert]

theorem Expr.Derives.tokens_of_text {level : Level} {ts : List Token} {t : String}
    (h : Derives level ts (.text t)) :
    (∃ content, ts = [.text content]) ∨ ts.head? = some .lparen := by
  generalize he : Expr.text t = e at h
  induction h with
  | text content => exact .inl ⟨content, rfl⟩
  | parens => exact .inr rfl
  | operand _ _ ih => exact ih he
  | _ => cases he

theorem exists_text_of_tokens? {rest : List Char} {ts : List Token}
    (h : tokens? ('"' :: rest) = some ts) : ∃ content, ts.head? = some (.text content) := by
  cases hscan : Token.scan? ('"' :: rest) with
  | none =>
    rw [tokens?_of_scan?_none (by decide) hscan] at h
    cases h
  | some r =>
    obtain ⟨t, rest'⟩ := r
    rw [tokens?_of_scan? hscan] at h
    obtain ⟨ts, -, rfl⟩ := Option.map_eq_some_iff.mp h
    rw [Token.scan?, if_pos rfl, Token.scanText?] at hscan
    split at hscan
    · cases hscan
    · cases hscan
      exact ⟨_, rfl⟩

/-- A text that keeps the skeleton of the condition that is just its variable
has no quotes. -/
theorem Condition.notMem_of_skeleton?
    (h : skeleton? (.single "A" (.text s)) ['A'] = some (.text "")) : '"' ∉ s.toList := by
  have hexpand : expand (.single "A" (.text s)) ['A'] = doubleEquals (Value.text s).literal := by
    have hpieces : Piece.ofText (stripParens ['A']) = [.word ['A']] := by decide +kernel
    have hget : (Environment.single "A" (.text s)).get? (String.ofList ['A']) =
        some (.text s) := by
      rw [Environment.get?_single, if_pos (by decide +kernel)]
    rw [expand, substitute, hpieces, List.flatMap_singleton, substitutePiece, hget]
  obtain ⟨e, he, hskeleton⟩ := Option.map_eq_some_iff.mp h
  rw [hexpand] at he
  obtain ⟨ts, hts, he⟩ := Option.bind_eq_some_iff.mp he
  have htext : ∃ t, e = .text t := by
    cases e with
    | text t => exact ⟨t, rfl⟩
    | _ => cases hskeleton
  obtain ⟨t, rfl⟩ := htext
  have hcount := count_quotes_of_tokens? hts
  obtain ⟨content, hhead⟩ := exists_text_of_tokens? hts
  rcases (Expr.ofTokens?_eq_some_iff.mp he).tokens_of_text with ⟨content', rfl⟩ | hparen
  · rw [doubleEquals, count_quotes_doubleEqualsAfter, Value.literal, List.cons_append,
      List.count_cons_self, List.count_append] at hcount
    have hlast : ['"'].count '"' = 1 := rfl
    have hone : [Token.text content'].countP Token.isText = 1 := rfl
    exact List.count_eq_zero.mp (by omega)
  · rw [hhead] at hparen
    cases hparen

theorem Environment.isQuoteFree_single {name : String} {v : Value} (h : v.IsQuoteFree) :
    (single name v).IsQuoteFree := by
  intro key w hw
  rw [get?_single] at hw
  split at hw
  · cases hw
    exact h
  · cases hw

theorem Environment.replaces_single (name s t : String) :
    (single name (.text t)).Replaces s (single name (.text s)) := by
  intro key
  rw [get?_single, get?_single]
  split
  · exact .inr ⟨t, rfl, rfl⟩
  · exact .inl rfl

end Skeletons

/-- The literal of a value stands for the value if and only if it can be
written, and a text leaves every condition as it is, but for the text itself,
if and only if it has no double quote. -/
theorem literal_stands_for_value_iff (v : Value) (s : String) :
    (v.IsDenoted ↔ v.IsWritable) ∧
      ('"' ∉ s.toList ↔ ∀ (env env' : Environment) (cs : List Char),
        env.IsQuoteFree → env.Replaces s env' →
          Condition.skeleton? env' cs = Condition.skeleton? env cs) := by
  refine ⟨⟨Value.IsDenoted.isWritable, Value.IsWritable.isDenoted⟩, ?_⟩
  constructor
  · intro hs env env' cs henv h
    exact Condition.skeleton?_of_replaces hs henv h cs
  · intro h
    apply Condition.notMem_of_skeleton?
    have hempty : (Value.text "").IsQuoteFree := List.not_mem_nil
    rw [h _ _ _ (Environment.isQuoteFree_single hempty) (Environment.replaces_single "A" s "")]
    decide +kernel

/-- A negative number is denoted, and a text that looks like a condition is
compared like any other. -/
theorem literal_stands_for_value_at_condition :
    (Value.number (-1.5)).IsDenoted ∧
      Condition.skeleton? (.single "A" (.text "B || A = 1")) "A = \"x\"".toList =
        Condition.skeleton? (.single "A" (.text "")) "A = \"x\"".toList := by
  constructor
  · exact (literal_stands_for_value_iff _ "").1.mpr (by decide +kernel)
  · exact (literal_stands_for_value_iff (.number 0) _).2.mp (by decide +kernel) _ _ _
      (Environment.isQuoteFree_single List.not_mem_nil) (Environment.replaces_single _ _ _)

/-- A text with quotes in it changes the condition that it is put into, and the
number that is none has no literal. -/
theorem literal_not_stands_for_value_at_quotes :
    ¬ (Value.text "y\" = \"y\" || \"z").IsDenoted ∧ ¬ (Value.number (0 / 0)).IsDenoted ∧
      ((Condition.holds (.single "A" (.text "y\" = \"y\" || \"z")) "A = \"x\"".toList).run.run
        ⟨#[], 0⟩).1.toOption = some true := by
  refine ⟨?_, Value.not_isDenoted_of_nan (by decide +kernel), by decide +kernel⟩
  rintro ⟨e, he, -⟩
  have hnone : Expr.ofCondition? (Value.text "y\" = \"y\" || \"z").literal = none := by
    decide +kernel
  rw [hnone] at he
  cases he

end LineBasic
