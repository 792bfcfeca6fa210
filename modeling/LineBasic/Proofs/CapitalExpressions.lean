import LineBasic.Proofs.CapitalShapes
import LineBasic.Proofs.Skeletons

/-!
Expressions in capitals. A text in capitals is cut into the same tokens, but for the
case of names and of the marks of powers of ten, and neither tells in the value of a
tree. So an expression has the same value in any case, and the fault that it ends in
tells its text in that case.
-/

namespace LineBasic

open Text

section Numerals

variable {cs : List Char}

def Power.inCapitals (p : Power) : Power := { p with mark := capital false p.mark }

def Numeral.inCapitals (x : Numeral) : Numeral := { x with power := x.power.map Power.inCapitals }

theorem isLetter_of_isDigit {c : Char} (h : isDigit c = true) : isLetter c = false :=
  (Bool.or_eq_false_iff.mp (isNameStart_of_isDigit h)).1

/-- The digits at the front of a text stay. -/
theorem takeWhile_isDigit_capitals :
    (capitals false cs).takeWhile isDigit = cs.takeWhile isDigit := by
  rw [takeWhile_capitals caseBlind_isDigit]
  exact capitals_of_forall (fun c hc => isLetter_of_isDigit (mem_takeWhile hc)) false

theorem dropWhile_isDigit_capitals :
    (capitals false cs).dropWhile isDigit = capitals false (cs.dropWhile isDigit) :=
  dropWhile_capitals_of_quote caseBlind_isDigit (by decide)

theorem Power.frontSign_capitals : frontSign (capitals false cs) = frontSign cs := by
  cases cs with
  | nil => rfl
  | cons c cs =>
    simp only [capitals_cons, frontSign, capital_eq_iff (k := '+') rfl,
      capital_eq_iff (k := '-') rfl]
    split
    · next hc => rcases hc with rfl | rfl <;> rfl
    · rfl

theorem Power.drop_frontSign_capitals :
    (capitals false cs).drop (frontSign cs).length =
      capitals false (cs.drop (frontSign cs).length) := by
  cases cs with
  | nil => rfl
  | cons c cs =>
    unfold frontSign
    simp only
    split
    · next hc => rcases hc with rfl | rfl <;> rfl
    · rfl

theorem Power.scan?_capitals (cs : List Char) : scan? (capitals false cs) =
    (scan? cs).map fun (p, rest) => (p.inCapitals, capitals false rest) := by
  cases cs with
  | nil => rfl
  | cons mark cs =>
    have hmark : (capital false mark = 'e' ∨ capital false mark = 'E') ↔
        (mark = 'e' ∨ mark = 'E') := by
      have hblind : CaseBlind fun c => decide (c = 'e' ∨ c = 'E') :=
        caseBlind_of_letters (by decide)
      exact decide_eq_decide.mp (hblind false mark)
    rw [capitals_cons, scan?, scan?]
    by_cases h : mark = 'e' ∨ mark = 'E'
    · have hquote : mark ≠ '"' := by rcases h with rfl | rfl <;> decide
      rw [if_pos (hmark.mpr h), if_pos h, turn_of_ne hquote, frontSign_capitals]
      simp only [drop_frontSign_capitals, takeWhile_isDigit_capitals, dropWhile_isDigit_capitals]
      split <;> rfl
    · rw [if_neg (mt hmark.mp h), if_neg h, Option.map_none]

theorem Numeral.withPower_capitals (whole : List Char) (fraction : Option (List Char))
    (cs : List Char) : withPower whole fraction (capitals false cs) =
      ((withPower whole fraction cs).1.inCapitals,
        capitals false (withPower whole fraction cs).2) := by
  rw [withPower, withPower, Power.scan?_capitals]
  cases Power.scan? cs <;> rfl

theorem Numeral.scan?_capitals (cs : List Char) : scan? (capitals false cs) =
    (scan? cs).map fun (x, rest) => (x.inCapitals, capitals false rest) := by
  have hpoint {c : Char} : capital false c = '.' ↔ c = '.' := capital_eq_iff rfl
  unfold scan?
  rw [takeWhile_isDigit_capitals, dropWhile_isDigit_capitals]
  cases cs.takeWhile isDigit with
  | nil =>
    cases cs.dropWhile isDigit with
    | nil => rfl
    | cons c rest =>
      by_cases hc : c = '.'
      · subst hc
        rw [capitals_cons_of_plain rfl (by decide)]
        simp only [takeWhile_isDigit_capitals, dropWhile_isDigit_capitals]
        split
        · rfl
        · rw [withPower_capitals]
          rfl
      · simp only [capitals_cons, List.cons.injEq, hpoint, hc, false_and, imp_self, implies_true,
          Option.map_none]
  | cons d ds =>
    cases cs.dropWhile isDigit with
    | nil => rfl
    | cons c rest =>
      by_cases hc : c = '.'
      · subst hc
        rw [capitals_cons_of_plain rfl (by decide)]
        simp only [takeWhile_isDigit_capitals, dropWhile_isDigit_capitals, withPower_capitals,
          Option.map_some]
      · simp only [capitals_cons, List.cons.injEq, hpoint, hc, false_and, imp_self, implies_true,
          Option.map_some]
        rw [← capitals_cons, withPower_capitals]

theorem Numeral.ofText?_capitals (cs : List Char) :
    ofText? (capitals false cs) = (ofText? cs).map Numeral.inCapitals := by
  rw [ofText?, ofText?, scan?_capitals]
  cases scan? cs with
  | none => rfl
  | some r =>
    obtain ⟨x, _ | ⟨c, rest⟩⟩ := r <;> rfl

/-- The mark of its power does not tell in the value of a numeral. -/
theorem Numeral.signedValue_inCapitals (negative : Bool) (x : Numeral) :
    x.inCapitals.signedValue negative = x.signedValue negative := by
  obtain ⟨whole, fraction, _ | p⟩ := x <;> rfl

theorem readTrimmedNumber?_capitals (cs : List Char) :
    readTrimmedNumber? (capitals false cs) = readTrimmedNumber? cs := by
  have hread (negative : Bool) (cs : List Char) :
      (Numeral.ofText? (capitals false cs)).map (Numeral.signedValue negative) =
        (Numeral.ofText? cs).map (Numeral.signedValue negative) := by
    rw [Numeral.ofText?_capitals, Option.map_map]
    exact congrArg (Option.map · _) (funext (Numeral.signedValue_inCapitals negative))
  fun_cases readTrimmedNumber? cs with
  | case1 cs => exact hread true cs
  | case2 cs => exact hread false cs
  | case3 cs hminus hplus =>
    rw [readTrimmedNumber?.eq_3]
    · exact hread false cs
    · intro ds hds
      obtain ⟨es, rfl, -⟩ := exists_of_capitals_cons rfl hds
      exact hminus es rfl
    · intro ds hds
      obtain ⟨es, rfl, -⟩ := exists_of_capitals_cons rfl hds
      exact hplus es rfl

end Numerals

namespace Token

variable {cs ds : List Char}

def inCapitals : Token → Token
  | .number x => .number x.inCapitals
  | .name cs => .name (capitals false cs)
  | t => t

theorem exists_scanSymbol?_of_capitals {t : Token} {rest : List Char}
    (h : capitals false ds = capitals false cs) (hscan : scanSymbol? cs = some (t, rest)) :
    ∃ rest', scanSymbol? ds = some (t, rest') ∧ capitals false rest' = capitals false rest := by
  have hfront {k : Char} {ds es : List Char} (hletter : isLetter k = false) (hquote : k ≠ '"')
      (h : capitals false ds = capitals false (k :: es)) :
      ∃ fs, ds = k :: fs ∧ capitals false fs = capitals false es := by
    rw [capitals_cons_of_plain hletter hquote] at h
    obtain ⟨fs, rfl, hfs⟩ := exists_of_capitals_cons hletter h
    rw [turn_of_ne hquote] at hfs
    exact ⟨fs, rfl, hfs⟩
  have hnot {k : Char} {ds es : List Char} (hes : ∀ fs, es = k :: fs → False)
      (hletter : isLetter k = false) (hquote : k ≠ '"')
      (h : capitals false ds = capitals false es) (fs : List Char) (heq : ds = k :: fs) :
      False := by
    subst heq
    obtain ⟨fs, rfl, -⟩ := hfront hletter hquote h.symm
    exact hes fs rfl
  unfold scanSymbol? at hscan
  split at hscan
  case h_9 hequals =>
    cases hscan
    obtain ⟨fs, rfl, hfs⟩ := hfront rfl (by decide) h
    exact ⟨fs, scanSymbol?.eq_9 fs (hnot hequals rfl (by decide) hfs), hfs⟩
  case h_12 hgreater hequals =>
    cases hscan
    obtain ⟨fs, rfl, hfs⟩ := hfront rfl (by decide) h
    exact ⟨fs, scanSymbol?.eq_12 fs (hnot hgreater rfl (by decide) hfs)
      (hnot hequals rfl (by decide) hfs), hfs⟩
  case h_14 hequals =>
    cases hscan
    obtain ⟨fs, rfl, hfs⟩ := hfront rfl (by decide) h
    exact ⟨fs, scanSymbol?.eq_14 fs (hnot hequals rfl (by decide) hfs), hfs⟩
  case h_17 => cases hscan
  case h_7 | h_8 | h_10 | h_11 | h_13 | h_15 | h_16 =>
    cases hscan
    obtain ⟨fs, rfl, hfs⟩ := hfront rfl (by decide) h
    obtain ⟨gs, rfl, hgs⟩ := hfront rfl (by decide) hfs
    exact ⟨gs, rfl, hgs⟩
  all_goals
    cases hscan
    obtain ⟨fs, rfl, hfs⟩ := hfront rfl (by decide) h
    exact ⟨fs, rfl, hfs⟩

/-- The content of a text literal stays. -/
theorem takeWhile_isInsideQuotes_capitals :
    (capitals true cs).takeWhile isInsideQuotes = cs.takeWhile isInsideQuotes := by
  rw [takeWhile_capitals Shape.caseBlind_isInsideQuotes]
  exact (capitals_of_notMem (Shape.notMem_takeWhile cs) true).trans (map_capital_true _)

theorem dropWhile_isInsideQuotes_capitals (cs : List Char) :
    (capitals true cs).dropWhile isInsideQuotes = capitals true (cs.dropWhile isInsideQuotes) :=
  dropWhile_capitals_of_quote Shape.caseBlind_isInsideQuotes (by decide)

theorem exists_scanText?_of_capitals {t : Token} {rest : List Char}
    (h : capitals true ds = capitals true cs) (hscan : scanText? cs = some (t, rest)) :
    ∃ rest', scanText? ds = some (t, rest') ∧ capitals false rest' = capitals false rest := by
  have htake : ds.takeWhile isInsideQuotes = cs.takeWhile isInsideQuotes := by
    rw [← takeWhile_isInsideQuotes_capitals, h, takeWhile_isInsideQuotes_capitals]
  have hdrop : capitals true (ds.dropWhile isInsideQuotes) =
      capitals true (cs.dropWhile isInsideQuotes) := by
    rw [← dropWhile_isInsideQuotes_capitals, h, dropWhile_isInsideQuotes_capitals]
  unfold scanText? at hscan ⊢
  split at hscan
  · cases hscan
  · next c rest hrest =>
    cases hscan
    obtain rfl := Shape.eq_quote_of_dropWhile hrest
    rw [hrest, capitals_quote] at hdrop
    obtain ⟨rest', hrest', hcapitals⟩ := exists_of_capitals_cons rfl hdrop
    rw [hrest', htake]
    exact ⟨rest', rfl, hcapitals⟩

theorem caseBlind_isNameStart : CaseBlind isNameStart := caseBlind_of_letters (by decide)

theorem caseBlind_isNameChar : CaseBlind isNameChar := caseBlind_of_letters (by decide)

/-- In any case the same token is scanned, but for the case of its own letters. -/
theorem exists_scan?_of_capitals {t : Token} {rest : List Char}
    (h : capitals false ds = capitals false cs) (hscan : scan? cs = some (t, rest)) :
    ∃ t' rest', scan? ds = some (t', rest') ∧ t'.inCapitals = t.inCapitals ∧
      capitals false rest' = capitals false rest := by
  cases cs with
  | nil => cases hscan
  | cons c cs =>
    by_cases hc : c = '"'
    · subst hc
      obtain ⟨ds, rfl, hds⟩ := exists_of_capitals_cons rfl (h.trans capitals_quote)
      rw [scan?, if_pos rfl] at hscan ⊢
      obtain ⟨rest', hscan', hrest⟩ := exists_scanText?_of_capitals hds hscan
      exact ⟨t, rest', hscan', rfl, hrest⟩
    obtain ⟨d, ds, rfl, hhead, htail⟩ := exists_cons_of_capitals h
    have hd : d ≠ '"' :=
      fun hd => hc ((capital_eq_iff rfl).mp (hhead.symm.trans ((capital_eq_iff rfl).mpr hd)))
    rw [turn_of_ne hc] at htail
    rw [scan?, if_neg hc] at hscan
    rw [scan?, if_neg hd, caseBlind_isNameStart.eq_of_capital hhead]
    split at hscan
    · next hstart =>
      rw [if_pos hstart]
      cases hscan
      refine ⟨_, _, rfl, ?_, ?_⟩
      · rw [inCapitals, inCapitals, capitals_cons, capitals_cons, hhead, turn_of_ne hc,
          turn_of_ne hd, ← takeWhile_capitals caseBlind_isNameChar, htail,
          takeWhile_capitals caseBlind_isNameChar]
      · rw [← dropWhile_capitals_of_quote caseBlind_isNameChar (by decide), htail,
          dropWhile_capitals_of_quote caseBlind_isNameChar (by decide)]
    · next hstart =>
      rw [if_neg hstart]
      have hnumeral := Numeral.scan?_capitals (d :: ds)
      rw [h, Numeral.scan?_capitals] at hnumeral
      cases hx : Numeral.scan? (c :: cs) with
      | some r =>
        rw [hx] at hscan hnumeral
        cases hscan
        obtain ⟨r', hr', heq⟩ := Option.map_eq_some_iff.mp hnumeral.symm
        rw [hr']
        exact ⟨_, _, rfl, congrArg number (congrArg Prod.fst heq), congrArg Prod.snd heq⟩
      | none =>
        rw [hx] at hscan hnumeral
        rw [Option.map_eq_none_iff.mp hnumeral.symm]
        obtain ⟨rest', hscan', hrest⟩ := exists_scanSymbol?_of_capitals h hscan
        exact ⟨t, rest', hscan', rfl, hrest⟩

end Token

section Tokens

variable {cs ds : List Char}

/-- In any case a text is cut into the same tokens, but for the case of their
letters. -/
theorem tokens?_of_capitals (h : capitals false ds = capitals false cs) :
    (tokens? ds).map (·.map Token.inCapitals) = (tokens? cs).map (·.map Token.inCapitals) := by
  have hcons (t : Token) (r : Option (List Token)) :
      (r.map (t :: ·)).map (·.map Token.inCapitals) =
        (r.map (·.map Token.inCapitals)).map (t.inCapitals :: ·) := by
    cases r <;> rfl
  have hblind : CaseBlind isSpace := caseBlind_of_letters (by decide)
  fun_induction tokens? cs generalizing ds with
  | case1 =>
    rw [capitals_eq_nil_iff.mp h, tokens?]
  | case2 c cs hspace ih =>
    obtain ⟨d, ds, rfl, hd, hds⟩ := exists_cons_of_capitals h
    have hquote : c ≠ '"' := by
      rintro rfl
      cases hspace
    rw [turn_of_ne hquote] at hds
    rw [tokens?, hblind.eq_of_capital hd, if_pos hspace]
    exact ih hds
  | case3 c cs hspace t rest hscan ih =>
    obtain ⟨t', rest', hscan', ht, hrest⟩ := Token.exists_scan?_of_capitals h hscan
    rw [tokens?_of_scan? hscan', hcons, hcons, ih hrest, ht]
  | case4 c cs hspace hscan =>
    obtain ⟨d, ds, rfl, hd, -⟩ := exists_cons_of_capitals h
    have hspace' : ¬ isSpace d = true := hblind.eq_of_capital hd ▸ hspace
    have hscan' : Token.scan? (d :: ds) = none := by
      cases hscan' : Token.scan? (d :: ds) with
      | none => rfl
      | some r =>
        obtain ⟨t, rest, hsome, -, -⟩ := Token.exists_scan?_of_capitals h.symm hscan'
        rw [hscan] at hsome
        cases hsome
    rw [tokens?_of_scan?_none hspace' hscan']

end Tokens

namespace Expr

section Trees

variable {level : Level} {ts us : List Token} {e : Expr}

theorem treeName_of_capitals {cs ds : List Char} (h : capitals false ds = capitals false cs) :
    treeName ds = treeName cs := by
  rw [treeName, treeName, ← upper_capitals, h, upper_capitals]

theorem exists_cons_of_inCapitals {t : Token}
    (h : us.map Token.inCapitals = (t :: ts).map Token.inCapitals) : ∃ u rest, us = u :: rest ∧
      u.inCapitals = t.inCapitals ∧ rest.map Token.inCapitals = ts.map Token.inCapitals :=
  List.map_eq_cons_iff.mp h

/-- A token that has no letters stays. -/
theorem exists_symbol_of_inCapitals {t : Token} (hnumber : ∀ x, t ≠ .number x)
    (hname : ∀ cs, t ≠ .name cs) (h : us.map Token.inCapitals = (t :: ts).map Token.inCapitals) :
    ∃ rest, us = t :: rest ∧ rest.map Token.inCapitals = ts.map Token.inCapitals := by
  obtain ⟨u, rest, rfl, hu, hrest⟩ := exists_cons_of_inCapitals h
  have heq : u = t := by
    cases t with
    | number x => exact absurd rfl (hnumber x)
    | name cs => exact absurd rfl (hname cs)
    | _ =>
      cases u with
      | number | name => cases hu
      | _ => exact hu
  exact ⟨rest, by rw [heq], hrest⟩

theorem exists_enclosed_of_inCapitals
    (h : us.map Token.inCapitals = (ts ++ [Token.rparen]).map Token.inCapitals) : ∃ inner,
      us = inner ++ [Token.rparen] ∧ inner.map Token.inCapitals = ts.map Token.inCapitals := by
  rw [List.map_append] at h
  obtain ⟨inner, last, rfl, hinner, hlast⟩ := List.map_eq_append_iff.mp h
  obtain ⟨rest, rfl, hrest⟩ :=
    exists_symbol_of_inCapitals (by simp) (by simp) hlast
  rw [List.map_eq_nil_iff.mp hrest]
  exact ⟨inner, rfl, hinner⟩

theorem exists_name_of_inCapitals {cs : List Char}
    (h : us.map Token.inCapitals = (.name cs :: ts).map Token.inCapitals) : ∃ ds rest,
      us = .name ds :: rest ∧ treeName ds = treeName cs ∧
        rest.map Token.inCapitals = ts.map Token.inCapitals := by
  obtain ⟨u, rest, rfl, hu, hrest⟩ := exists_cons_of_inCapitals h
  cases u with
  | name ds => exact ⟨ds, rest, rfl, treeName_of_capitals (Token.name.inj hu), hrest⟩
  | _ => cases hu

/-- Tokens that are the same in capitals have trees of the same value. -/
theorem Derives.exists_of_inCapitals (h : Derives level ts e)
    (hus : us.map Token.inCapitals = ts.map Token.inCapitals) :
    ∃ e', Derives level us e' ∧ ∀ env, e'.eval env = e.eval env := by
  induction h generalizing us with
  | number x =>
    obtain ⟨u, rest, rfl, hu, hrest⟩ := exists_cons_of_inCapitals hus
    rw [List.map_eq_nil_iff.mp hrest]
    cases u with
    | number y =>
      have hvalue : y.value = x.value := by
        rw [Numeral.value, ← Numeral.signedValue_inCapitals, Token.number.inj hu,
          Numeral.signedValue_inCapitals, Numeral.value]
      exact ⟨_, .number y, fun env => by rw [eval, eval, hvalue]⟩
    | _ => cases hu
  | text content =>
    obtain ⟨rest, rfl, hrest⟩ := exists_symbol_of_inCapitals (by simp) (by simp) hus
    rw [List.map_eq_nil_iff.mp hrest]
    exact ⟨_, .text content, fun _ => rfl⟩
  | «variable» cs =>
    obtain ⟨ds, rest, rfl, hname, hrest⟩ := exists_name_of_inCapitals hus
    rw [List.map_eq_nil_iff.mp hrest]
    exact ⟨_, .variable ds, fun env => by rw [hname]⟩
  | invoke cs =>
    obtain ⟨ds, rest, rfl, hname, hrest⟩ := exists_name_of_inCapitals hus
    obtain ⟨rest, rfl, hlast⟩ := exists_symbol_of_inCapitals (by simp) (by simp) hrest
    obtain ⟨rest, rfl, hnil⟩ := exists_symbol_of_inCapitals (by simp) (by simp) hlast
    rw [List.map_eq_nil_iff.mp hnil]
    exact ⟨_, .invoke ds, fun env => by rw [hname]⟩
  | apply cs _ ih =>
    obtain ⟨ds, rest, rfl, hname, hrest⟩ := exists_name_of_inCapitals hus
    obtain ⟨rest, rfl, hlast⟩ := exists_symbol_of_inCapitals (by simp) (by simp) hrest
    obtain ⟨inner, rfl, hinner⟩ := exists_enclosed_of_inCapitals hlast
    obtain ⟨e', he', heval⟩ := ih hinner
    exact ⟨_, .apply ds he', fun env => by rw [eval, eval, hname, heval]⟩
  | parens _ ih =>
    obtain ⟨rest, rfl, hrest⟩ := exists_symbol_of_inCapitals (by simp) (by simp) hus
    obtain ⟨inner, rfl, hinner⟩ := exists_enclosed_of_inCapitals hrest
    obtain ⟨e', he', heval⟩ := ih hinner
    exact ⟨_, .parens he', heval⟩
  | plus _ ih =>
    obtain ⟨rest, rfl, hrest⟩ := exists_symbol_of_inCapitals (by simp) (by simp) hus
    obtain ⟨e', he', heval⟩ := ih hrest
    exact ⟨_, .plus he', fun env => by rw [eval, eval, heval]⟩
  | minus _ ih =>
    obtain ⟨rest, rfl, hrest⟩ := exists_symbol_of_inCapitals (by simp) (by simp) hus
    obtain ⟨e', he', heval⟩ := ih hrest
    exact ⟨_, .minus he', fun env => by rw [eval, eval, heval]⟩
  | not _ ih =>
    obtain ⟨rest, rfl, hrest⟩ := exists_symbol_of_inCapitals (by simp) (by simp) hus
    obtain ⟨e', he', heval⟩ := ih hrest
    exact ⟨_, .not he', fun env => by rw [eval, eval, heval]⟩
  | operand hlevel _ ih =>
    obtain ⟨e', he', heval⟩ := ih hus
    exact ⟨e', .operand hlevel he', heval⟩
  | @binary level op left right a b hop _ _ ihleft ihright =>
    rw [List.map_append] at hus
    obtain ⟨left', right', rfl, hleft, hright⟩ := List.map_eq_append_iff.mp hus
    obtain ⟨right', rfl, hoperand⟩ :=
      exists_symbol_of_inCapitals (by simp) (by simp) hright
    obtain ⟨a', ha, hevala⟩ := ihleft hleft
    obtain ⟨b', hb, hevalb⟩ := ihright hoperand
    refine ⟨_, .binary hop ha hb, fun env => ?_⟩
    cases op <;> simp only [eval, hevala, hevalb]

/-- In any case a text has a tree of the same value, or none. -/
theorem parse?_of_capitals {cs ds : List Char} (h : capitals false ds = capitals false cs)
    (level : Level) : (parse? level ds).map (fun e env => e.eval env) =
      (parse? level cs).map fun e env => e.eval env := by
  have hnone {ts us : List Token} (hus : us.map Token.inCapitals = ts.map Token.inCapitals)
      (hts : ofTokens? level ts = none) : ofTokens? level us = none := by
    refine Option.eq_none_iff_forall_ne_some.mpr fun e he => ?_
    obtain ⟨e', he', -⟩ := (ofTokens?_eq_some_iff.mp he).exists_of_inCapitals hus.symm
    rw [ofTokens?_eq_some_iff.mpr he'] at hts
    cases hts
  have htokens := tokens?_of_capitals h
  rw [parse?, parse?]
  cases hts : tokens? cs with
  | none =>
    rw [hts] at htokens
    rw [Option.map_eq_none_iff.mp htokens]
  | some ts =>
    rw [hts] at htokens
    obtain ⟨us, hus, hmap⟩ := Option.map_eq_some_iff.mp htokens
    rw [hus, Option.bind_some, Option.bind_some]
    cases he : ofTokens? level ts with
    | none => rw [hnone hmap he]
    | some e =>
      obtain ⟨e', he', heval⟩ := (ofTokens?_eq_some_iff.mp he).exists_of_inCapitals hmap
      rw [ofTokens?_eq_some_iff.mpr he', Option.map_some, Option.map_some, funext heval]

end Trees

end Expr

/-- The characters of a string, its ASCII letters in upper case. -/
def Text.caseless (s : String) : List Char := s.toList.map Char.toUpper

theorem Text.caseless_append (s t : String) : caseless (s ++ t) = caseless s ++ caseless t := by
  rw [caseless, String.toList_append, List.map_append]
  rfl

/-- What a fault tells in any case: its kind, and its message in upper case. -/
def Fault.caseless (f : Fault) : String × List Char := (f.kind, Text.caseless f.message)

section Computations

variable {σ κ α β : Type} {view : σ → κ} {k : κ}

/-- Whether two computations that start in one state, as far as it is in view, end in
one, and with the same value or with faults that tell the same in any case. -/
def RunsAlike (view : σ → κ) (k : κ) (x y : ExceptT Fault (StateM σ) α) : Prop :=
  ∀ s t, view s = k → view t = k →
    (x.run.run s).1.mapError Fault.caseless = (y.run.run t).1.mapError Fault.caseless ∧
      view (x.run.run s).2 = view (y.run.run t).2

theorem runsAlike_mk_pure {r r' : Except Fault α}
    (h : r.mapError Fault.caseless = r'.mapError Fault.caseless) :
    RunsAlike view k (ExceptT.mk (pure r)) (ExceptT.mk (pure r')) :=
  fun _ _ hs ht => ⟨h, hs.trans ht.symm⟩

theorem runsAlike_pure (a : α) :
    RunsAlike view k (pure a) (pure a : ExceptT Fault (StateM σ) α) :=
  runsAlike_mk_pure rfl

theorem runsAlike_throw {f f' : Fault} (h : f.caseless = f'.caseless) :
    RunsAlike view k (throw f) (throw f' : ExceptT Fault (StateM σ) α) :=
  runsAlike_mk_pure (congrArg Except.error h)

/-- Only what the first part ends in, if it ends well, is gone on with. -/
theorem RunsAlike.bind {x y : ExceptT Fault (StateM σ) α} {f f' : α → ExceptT Fault (StateM σ) β}
    (hx : RunsAlike view k x y)
    (hf : ∀ a s s', view s = k → x.run.run s = (.ok a, s') →
      RunsAlike view (view s') (f a) (f' a)) :
    RunsAlike view k (x >>= f) (y >>= f') := by
  intro s t hs ht
  obtain ⟨hresult, hview⟩ := hx s t hs ht
  rw [run_run_bind, run_run_bind]
  cases hrun : x.run.run s with
  | mk r s' =>
    cases hrun' : y.run.run t with
    | mk r' t' =>
      rw [hrun, hrun'] at hresult hview
      cases r with
      | error e =>
        cases r' with
        | error e' => exact ⟨congrArg Except.error (Except.error.inj hresult), hview⟩
        | ok a => cases hresult
      | ok a =>
        cases r' with
        | error e' => cases hresult
        | ok a' =>
          cases hresult
          exact hf a s s' hs hrun s' t' rfl hview.symm

/-- Only the fault of the first part, if it ends in one, is handled. -/
theorem RunsAlike.tryCatch {x y : ExceptT Fault (StateM σ) α}
    {f f' : Fault → ExceptT Fault (StateM σ) α} (hx : RunsAlike view k x y)
    (hf : ∀ e e' s s', view s = k → x.run.run s = (.error e, s') → e.caseless = e'.caseless →
      RunsAlike view (view s') (f e) (f' e')) :
    RunsAlike view k (tryCatch x f) (tryCatch y f') := by
  intro s t hs ht
  obtain ⟨hresult, hview⟩ := hx s t hs ht
  rw [ExceptT.run_tryCatch, ExceptT.run_tryCatch, StateT.run_bind, StateT.run_bind]
  cases hrun : x.run.run s with
  | mk r s' =>
    cases hrun' : y.run.run t with
    | mk r' t' =>
      rw [hrun, hrun'] at hresult hview
      cases r with
      | ok a =>
        cases r' with
        | ok a' => exact ⟨hresult, hview⟩
        | error e' => cases hresult
      | error e =>
        cases r' with
        | ok a' => cases hresult
        | error e' =>
          exact hf e e' s s' hs hrun (Except.error.inj hresult) s' t' rfl hview.symm

theorem runsAlike_refl (x : Eval Fault α) (g : Generator) : RunsAlike id g x x := by
  intro s t hs ht
  obtain rfl : s = t := hs.trans ht.symm
  exact ⟨rfl, rfl⟩

/-- Failures that become faults in two ways, but for the case of what they tell. -/
theorem runsAlike_adapt {ε : Type} {x : Eval ε α} {f f' : ε → Fault} {g : Generator}
    (h : ∀ e, (f e).caseless = (f' e).caseless) : RunsAlike id g (x.adapt f) (x.adapt f') := by
  intro s t hs ht
  obtain rfl : s = t := hs.trans ht.symm
  rw [run_run_adapt, run_run_adapt]
  refine ⟨?_, rfl⟩
  change ((x.run.run s).1.mapError f).mapError _ = ((x.run.run s).1.mapError f').mapError _
  cases (x.run.run s).1 with
  | ok a => rfl
  | error e => exact congrArg Except.error (h e)

end Computations

section Evaluation

variable {cs ds : List Char}

theorem literalContent?_capitals (cs : List Char) :
    literalContent? (capitals false cs) = literalContent? cs := by
  fun_cases literalContent? cs with
  | case1 cs hend =>
    rw [capitals_quote, literalContent?, Bool.not_false, Token.dropWhile_isInsideQuotes_capitals,
      hend, Token.takeWhile_isInsideQuotes_capitals]
    rfl
  | case2 cs hend =>
    have hend' : capitals true (cs.dropWhile isInsideQuotes) ≠ ['"'] := by
      intro heq
      obtain ⟨rest, hrest, hnil⟩ := exists_of_capitals_cons rfl heq
      rw [capitals_eq_nil_iff.mp hnil] at hrest
      exact hend hrest
    rw [capitals_quote, literalContent?, Bool.not_false, Token.dropWhile_isInsideQuotes_capitals,
      if_neg hend']
  | case3 cs hquote =>
    rw [literalContent?.eq_2]
    intro ds hds
    obtain ⟨es, rfl, -⟩ := exists_of_capitals_cons rfl hds
    exact hquote es rfl

theorem caseless_of_capitals (h : capitals false ds = capitals false cs) :
    caseless (String.ofList ds) = caseless (String.ofList cs) := by
  rw [caseless, caseless, String.toList_ofList, String.toList_ofList,
    ← map_capitals caseBlind_toUpper, h, map_capitals caseBlind_toUpper]

theorem Fault.caseless_malformedExpression {text text' : String}
    (h : Text.caseless text = Text.caseless text') :
    (malformedExpression text).caseless = (malformedExpression text').caseless := by
  refine Prod.ext rfl ?_
  change Text.caseless (_ ++ text) = Text.caseless (_ ++ text')
  rw [caseless_append, h, caseless_append]

theorem Failure.caseless_toFault {text text' : String}
    (h : Text.caseless text = Text.caseless text') (e : Failure) :
    (e.toFault text).caseless = (e.toFault text').caseless := by
  cases e with
  | fault f => rw [toFault, toFault]
  | mismatch m =>
    refine Prod.ext rfl ?_
    change Text.caseless (_ ++ text ++ _ ++ _ ++ _) = Text.caseless (_ ++ text' ++ _ ++ _ ++ _)
    simp only [caseless_append, h]

/-- An expression has the same value in any case, and draws the same numbers. -/
theorem evaluateTrimmed_of_capitals (h : capitals false ds = capitals false cs) (env : Environment)
    (g : Generator) : RunsAlike id g (evaluateTrimmed env ds) (evaluateTrimmed env cs) := by
  have hnumber : readTrimmedNumber? ds = readTrimmedNumber? cs := by
    rw [← readTrimmedNumber?_capitals, h, readTrimmedNumber?_capitals]
  have htext := caseless_of_capitals h
  have hparse := Expr.parse?_of_capitals h .sum
  have hcontent : literalContent? ds = literalContent? cs := by
    rw [← literalContent?_capitals, h, literalContent?_capitals]
  rw [evaluateTrimmed, evaluateTrimmed, hcontent, hnumber,
    Expr.ofExpression?, Expr.ofExpression?]
  cases literalContent? cs with
  | some content => exact runsAlike_pure _
  | none =>
    cases readTrimmedNumber? cs with
    | some x => exact runsAlike_pure _
    | none =>
      cases he : Expr.parse? .sum cs with
      | none =>
        rw [he] at hparse
        rw [Option.map_eq_none_iff.mp hparse]
        exact runsAlike_throw (Fault.caseless_malformedExpression htext)
      | some e =>
        rw [he] at hparse
        obtain ⟨e', he', heval⟩ := Option.map_eq_some_iff.mp hparse
        rw [he']
        refine (?_ : RunsAlike id g ((e'.eval env).adapt _) ((e.eval env).adapt _))
        rw [congrFun heval env]
        exact runsAlike_adapt (Failure.caseless_toFault htext)

end Evaluation

section Balance

variable {cs : List Char}

theorem quotedAfter_eq (quoted : Bool) (cs : List Char) :
    quotedAfter quoted cs = if cs.count '"' % 2 = 0 then quoted else !quoted := by
  induction cs generalizing quoted with
  | nil => rfl
  | cons c cs ih =>
    rw [quotedAfter_cons, ih]
    by_cases hc : c = '"'
    · subst hc
      rw [turn_quote, List.count_cons_self, Bool.not_not]
      rcases Nat.mod_two_eq_zero_or_one (cs.count '"') with h | h
      · rw [if_pos h, if_neg (by omega)]
      · rw [if_neg (by omega), if_pos (by omega)]
    · rw [turn_of_ne hc, List.count_cons_of_ne hc]

/-- A text that is cut into tokens ends outside text literals. -/
theorem quotedAfter_of_tokens? {ts : List Token} (h : tokens? cs = some ts) :
    quotedAfter false cs = false := by
  rw [quotedAfter_eq, count_quotes_of_tokens? h, if_pos (Nat.mul_mod_right 2 _)]

theorem eq_of_literalContent? {content : List Char} (h : literalContent? cs = some content) :
    cs = '"' :: content ++ ['"'] ∧ ∀ c ∈ content, isInsideQuotes c = true := by
  fun_cases literalContent? cs with
  | case1 cs hend =>
    rw [literalContent?, if_pos hend] at h
    obtain rfl := Option.some.inj h
    refine ⟨?_, fun c hc => mem_takeWhile hc⟩
    rw [← hend, List.cons_append, List.takeWhile_append_dropWhile]
  | case2 cs hend =>
    rw [literalContent?, if_neg hend] at h
    cases h
  | case3 cs hquote =>
    rw [literalContent?.eq_2 cs hquote] at h
    cases h

theorem quotedAfter_of_literalContent? {content : List Char}
    (h : literalContent? cs = some content) : quotedAfter false cs = false := by
  obtain ⟨rfl, hinside⟩ := eq_of_literalContent? h
  refine quotedAfter_literal (fun hmem => ?_) false
  exact absurd (hinside _ hmem) (by decide)

theorem quotedAfter_of_readTrimmedNumber? {x : Float} (h : readTrimmedNumber? cs = some x) :
    quotedAfter false cs = false := by
  have hplain {cs : List Char} {f : Numeral → Float} (h : (Numeral.ofText? cs).map f = some x) :
      '"' ∉ cs := by
    obtain ⟨n, hn, -⟩ := Option.map_eq_some_iff.mp h
    obtain ⟨hspelled, rfl⟩ := Numeral.exists_of_ofText? hn
    exact fun hmem => (hspelled.ne_of_mem _ hmem).1 rfl
  refine quotedAfter_of_notMem ?_ false
  fun_cases readTrimmedNumber? cs with
  | case1 cs => exact List.not_mem_cons_of_ne_of_not_mem (by decide) (hplain h)
  | case2 cs => exact List.not_mem_cons_of_ne_of_not_mem (by decide) (hplain h)
  | case3 cs hminus hplus => exact hplain ((readTrimmedNumber?.eq_3 cs hminus hplus).symm.trans h)

/-- An expression that has a value ends outside text literals. -/
theorem quotedAfter_of_evaluateTrimmed {env : Environment} {v : Value} {g g' : Generator}
    (h : (evaluateTrimmed env cs).run.run g = (.ok v, g')) : quotedAfter false cs = false := by
  rw [evaluateTrimmed] at h
  split at h
  · next hcontent => exact quotedAfter_of_literalContent? hcontent
  split at h
  · next hnumber => exact quotedAfter_of_readTrimmedNumber? hnumber
  split at h
  · next he =>
    obtain ⟨ts, hts, -⟩ := Option.bind_eq_some_iff.mp he
    exact quotedAfter_of_tokens? hts
  · cases h

end Balance

end LineBasic
