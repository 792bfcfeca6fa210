import LineBasic.Proofs.Characters

/-!
Tokens and their spellings. A lexeme is a token that is scanned from its own
spelling, and it still is when something follows that cannot go on with it.
-/

namespace LineBasic

def AtBreak (rest : List Char) : Prop := ∀ c, rest.head? = some c → c = ' '

theorem atBreak_nil : AtBreak [] := by
  intro c hc
  cases hc

theorem atBreak_space (rest : List Char) : AtBreak (' ' :: rest) := by
  intro c hc
  cases hc
  rfl

/-- Every class without the space stops at a break. -/
theorem AtBreak.stopsAt {rest : List Char} (h : AtBreak rest) {p : Char → Bool}
    (hp : p ' ' = false) : StopsAt p rest := by
  intro c hc
  rw [h c hc]
  exact hp

namespace Power

structure IsSpelled (p : Power) : Prop where
  mark : p.mark = 'e' ∨ p.mark = 'E'
  sign : p.sign = [] ∨ p.sign = ['+'] ∨ p.sign = ['-']
  ne_nil : p.digits ≠ []
  digits : ∀ c ∈ p.digits, Text.isDigit c = true

theorem frontSign_cases (cs : List Char) :
    frontSign cs = [] ∨ frontSign cs = ['+'] ∨ frontSign cs = ['-'] := by
  cases cs with
  | nil => exact .inl rfl
  | cons c cs =>
    simp only [frontSign]
    split
    · next h => rcases h with rfl | rfl <;> simp
    · exact .inl rfl

theorem isSpelled_of_scan? {cs rest : List Char} {p : Power} (h : scan? cs = some (p, rest)) :
    p.IsSpelled := by
  unfold scan? at h
  split at h
  · cases h
  · next mark cs =>
    split at h
    · next hmark =>
      simp only at h
      split at h
      · cases h
      · next d ds hds =>
        cases h
        refine ⟨hmark, frontSign_cases cs, by simp, fun c hc => ?_⟩
        rw [← hds] at hc
        exact mem_takeWhile hc
    · cases h

/-- The sign of a power is all that is read before its digits. -/
theorem frontSign_spelling {p : Power} (hp : p.IsSpelled) (rest : List Char) :
    frontSign (p.sign ++ (p.digits ++ rest)) = p.sign := by
  obtain ⟨d, ds, hds⟩ := List.exists_cons_of_ne_nil hp.ne_nil
  rcases hp.sign with hsign | hsign | hsign
  · have hd : Text.isDigit d = true := hp.digits d (by simp [hds])
    have hplus : d ≠ '+' := by
      rintro rfl
      simp [Text.isDigit, Text.digit?] at hd
    have hminus : d ≠ '-' := by
      rintro rfl
      simp [Text.isDigit, Text.digit?] at hd
    simp [hsign, hds, frontSign, hplus, hminus]
  · simp [hsign, frontSign]
  · simp [hsign, frontSign]

theorem scan?_spelling_append {p : Power} (hp : p.IsSpelled) {rest : List Char}
    (hrest : StopsAt Text.isDigit rest) : scan? (p.spelling ++ rest) = some (p, rest) := by
  have htake := takeWhile_run hp.digits hrest
  have hdrop := dropWhile_run hp.digits hrest
  simp only [spelling, List.cons_append, List.append_assoc, scan?, hp.mark, if_true,
    frontSign_spelling hp, List.drop_left, htake, hdrop]
  split
  · next hnil => exact absurd hnil hp.ne_nil
  · next d ds hds => rw [← hds]

end Power

namespace Numeral

def isFurther (c : Char) : Bool := Text.isDigit c || c == '.' || c == 'e' || c == 'E'

section Further

variable {rest : List Char}

theorem stopsAt_digit (h : StopsAt isFurther rest) : StopsAt Text.isDigit rest := by
  intro c hc
  have hfurther := h c hc
  simp only [isFurther, Bool.or_eq_false_iff] at hfurther
  exact hfurther.1.1.1

theorem stopsAt_dot (h : StopsAt isFurther rest) : StopsAt (· == '.') rest := by
  intro c hc
  have hfurther := h c hc
  simp only [isFurther, Bool.or_eq_false_iff] at hfurther
  exact hfurther.1.1.2

/-- Where no numeral goes on, no power of ten begins. -/
theorem power_scan?_eq_none (h : StopsAt isFurther rest) : Power.scan? rest = none := by
  cases rest with
  | nil => rfl
  | cons c rest =>
    have hfurther := h c rfl
    simp only [isFurther, Bool.or_eq_false_iff, beq_eq_false_iff_ne] at hfurther
    simp [Power.scan?, hfurther.1.2, hfurther.2]

end Further

structure IsSpelled (x : Numeral) : Prop where
  whole : ∀ c ∈ x.whole, Text.isDigit c = true
  fraction : ∀ cs, x.fraction = some cs → ∀ c ∈ cs, Text.isDigit c = true
  has_digit : x.whole = [] → ∃ d ds, x.fraction = some (d :: ds)
  power : ∀ p, x.power = some p → p.IsSpelled

theorem withPower_spelling_append {x : Numeral} (hx : x.IsSpelled) {rest : List Char}
    (hrest : StopsAt isFurther rest) :
    withPower x.whole x.fraction (x.power.elim [] Power.spelling ++ rest) = (x, rest) := by
  unfold withPower
  cases hp : x.power with
  | none =>
    simp only [Option.elim_none, List.nil_append, power_scan?_eq_none hrest]
    rw [← hp]
  | some p =>
    simp only [Option.elim_some, Power.scan?_spelling_append (hx.power p hp)
      (stopsAt_digit hrest)]
    rw [← hp]

/-- What holds of digits, points, marks and signs holds of all characters of a
numeral. -/
theorem IsSpelled.forall_mem {x : Numeral} (h : x.IsSpelled) {P : Char → Prop}
    (hdigit : ∀ c, Text.isDigit c = true → P c) (hother : ∀ c ∈ ['.', 'e', 'E', '+', '-'], P c) :
    ∀ c ∈ x.spelling, P c := by
  have hfraction : ∀ c ∈ x.fraction.elim [] ('.' :: ·), P c := by
    intro c hc
    cases hf : x.fraction with
    | none => simp [hf] at hc
    | some fs =>
      simp only [hf, Option.elim_some, List.mem_cons] at hc
      rcases hc with rfl | hc
      · exact hother _ (by simp)
      · exact hdigit c (h.fraction fs hf c hc)
  have hpower : ∀ c ∈ x.power.elim [] Power.spelling, P c := by
    intro c hc
    cases hp : x.power with
    | none => simp [hp] at hc
    | some p =>
      have hspelled := h.power p hp
      simp only [hp, Option.elim_some, Power.spelling, List.mem_cons, List.mem_append] at hc
      rcases hc with (rfl | hc) | hc
      · rcases hspelled.mark with hmark | hmark <;> rw [hmark] <;> exact hother _ (by simp)
      · rcases hspelled.sign with hsign | hsign | hsign <;> rw [hsign] at hc
        · cases hc
        · exact hother c (by simp at hc; simp [hc])
        · exact hother c (by simp at hc; simp [hc])
      · exact hdigit c (hspelled.digits c hc)
  intro c hc
  simp only [Numeral.spelling, List.mem_append] at hc
  rcases hc with (hc | hc) | hc
  · exact hdigit c (h.whole c hc)
  · exact hfraction c hc
  · exact hpower c hc

/-- No digit goes on behind the digits of a numeral. -/
theorem stopsAt_power {x : Numeral} (hx : x.IsSpelled) {rest : List Char}
    (hrest : StopsAt isFurther rest) :
    StopsAt Text.isDigit (x.power.elim [] Power.spelling ++ rest) := by
  cases hp : x.power with
  | none => exact stopsAt_digit hrest
  | some p =>
    have hmark := (hx.power p hp).mark
    refine stopsAt_cons ?_
    rcases hmark with hmark | hmark <;> rw [hmark] <;> decide

/-- No point follows the digits of a numeral without a fraction. -/
theorem stopsAt_point {x : Numeral} (hx : x.IsSpelled) {rest : List Char}
    (hrest : StopsAt isFurther rest) :
    StopsAt (· == '.') (x.power.elim [] Power.spelling ++ rest) := by
  cases hp : x.power with
  | none => exact stopsAt_dot hrest
  | some p =>
    have hmark := (hx.power p hp).mark
    refine stopsAt_cons ?_
    rcases hmark with hmark | hmark <;> rw [hmark] <;> decide

theorem scan?_spelling_append {x : Numeral} (hx : x.IsSpelled) {rest : List Char}
    (hrest : StopsAt isFurther rest) : scan? (x.spelling ++ rest) = some (x, rest) := by
  have hstops := stopsAt_power hx hrest
  have hpower := withPower_spelling_append hx hrest
  cases hf : x.fraction with
  | some fs =>
    have hspelling : x.spelling ++ rest =
        x.whole ++ '.' :: (fs ++ (x.power.elim [] Power.spelling ++ rest)) := by
      simp [spelling, hf]
    have hpoint : StopsAt Text.isDigit
        ('.' :: (fs ++ (x.power.elim [] Power.spelling ++ rest))) :=
      stopsAt_cons (by decide)
    have htake := takeWhile_run (hx.fraction fs hf) hstops
    have hdrop := dropWhile_run (hx.fraction fs hf) hstops
    rw [hf] at hpower
    unfold scan?
    rw [hspelling, takeWhile_run hx.whole hpoint, dropWhile_run hx.whole hpoint]
    cases hw : x.whole with
    | nil =>
      obtain ⟨d, ds, hds⟩ := hx.has_digit hw
      rw [hf] at hds
      cases hds
      rw [hw] at hpower
      simp only [htake, hdrop, hpower]
    | cons d ds =>
      rw [hw] at hpower
      simp only [htake, hdrop, hpower]
  | none =>
    have hspelling : x.spelling ++ rest =
        x.whole ++ (x.power.elim [] Power.spelling ++ rest) := by
      simp [spelling, hf]
    rw [hf] at hpower
    unfold scan?
    rw [hspelling, takeWhile_run hx.whole hstops, dropWhile_run hx.whole hstops]
    cases hw : x.whole with
    | nil =>
      obtain ⟨d, ds, hds⟩ := hx.has_digit hw
      rw [hf] at hds
      cases hds
    | cons d ds =>
      rw [hw] at hpower
      split
      · next hnil _ => cases hnil
      · next hnil _ => cases hnil
      · next hdot =>
        -- A power is marked by a letter, and the rest does not start with a point.
        have hstops := stopsAt_point hx hrest '.' (by rw [hdot]; rfl)
        simp at hstops
      · next hcons _ => rw [← hcons, hpower]

theorem isSpelled_withPower {whole cs : List Char} {fraction : Option (List Char)}
    (hwhole : ∀ c ∈ whole, Text.isDigit c = true)
    (hfraction : ∀ fs, fraction = some fs → ∀ c ∈ fs, Text.isDigit c = true)
    (hdigit : whole = [] → ∃ d ds, fraction = some (d :: ds)) :
    (withPower whole fraction cs).1.IsSpelled := by
  unfold withPower
  split
  · next p rest hp =>
    refine ⟨hwhole, hfraction, hdigit, ?_⟩
    intro q hq
    cases hq
    exact Power.isSpelled_of_scan? hp
  · refine ⟨hwhole, hfraction, hdigit, ?_⟩
    intro q hq
    cases hq

theorem isSpelled_of_scan? {cs rest : List Char} {x : Numeral} (h : scan? cs = some (x, rest)) :
    x.IsSpelled := by
  have key {whole tail : List Char} {fraction : Option (List Char)}
      (hwhole : ∀ c ∈ whole, Text.isDigit c = true)
      (hfraction : ∀ fs, fraction = some fs → ∀ c ∈ fs, Text.isDigit c = true)
      (hdigit : whole = [] → ∃ d ds, fraction = some (d :: ds))
      (h : some (withPower whole fraction tail) = some (x, rest)) : x.IsSpelled := by
    have hx : x = (withPower whole fraction tail).1 := by rw [Option.some.inj h]
    rw [hx]
    exact isSpelled_withPower hwhole hfraction hdigit
  unfold scan? at h
  split at h
  · next rest' _ _ =>
    split at h
    · cases h
    · next d ds hds =>
      refine key (by simp) ?_ (fun _ => ⟨d, ds, rfl⟩) h
      rintro _ ⟨⟩ c hc
      rw [← hds] at hc
      exact mem_takeWhile hc
  · cases h
  · next d ds rest' hw _ =>
    refine key ?_ ?_ (by simp) h
    · intro c hc
      rw [← hw] at hc
      exact mem_takeWhile hc
    · rintro _ ⟨⟩ c hc
      exact mem_takeWhile hc
  · next d ds hw _ =>
    refine key ?_ (by simp) (by simp) h
    intro c hc
    rw [← hw] at hc
    exact mem_takeWhile hc

end Numeral

namespace Token

/-- Whether a token is spelled as one: a numeral, a text without a double quote
between quotes, or an ASCII name. -/
def IsSpelled : Token → Prop
  | .number x => x.IsSpelled
  | .text content => ∀ c ∈ content, isInsideQuotes c = true
  | .name cs => ∃ c rest, cs = c :: rest ∧ isNameStart c = true ∧
      ∀ d ∈ rest, isNameChar d = true
  | _ => True

theorem isSpelled_of_scanSymbol? {cs rest : List Char} {t : Token}
    (h : scanSymbol? cs = some (t, rest)) : t.IsSpelled := by
  unfold scanSymbol? at h
  split at h <;> cases h <;> trivial

theorem isSpelled_of_scan? {cs rest : List Char} {t : Token} (h : scan? cs = some (t, rest)) :
    t.IsSpelled := by
  cases cs with
  | nil => cases h
  | cons c cs =>
    rw [scan?] at h
    split at h
    · unfold scanText? at h
      split at h
      · cases h
      · cases h
        exact fun _ hd => mem_takeWhile hd
    · split at h
      · next hstart =>
        cases h
        exact ⟨c, _, rfl, hstart, fun _ hd => mem_takeWhile hd⟩
      · split at h
        · next hx =>
          cases h
          exact Numeral.isSpelled_of_scan? hx
        · exact isSpelled_of_scanSymbol? h

theorem scanText?_append {content rest : List Char}
    (h : ∀ c ∈ content, isInsideQuotes c = true) :
    scanText? (content ++ '"' :: rest) = some (.text content, rest) := by
  have hquote : StopsAt isInsideQuotes ('"' :: rest) := stopsAt_cons (by decide)
  simp only [scanText?, dropWhile_run h hquote, takeWhile_run h hquote]

/-- A digit or a point opens a numeral. -/
theorem exists_spelling_of_numeral {x : Numeral} (h : x.IsSpelled) :
    ∃ c cs, x.spelling = c :: cs ∧ (Text.isDigit c = true ∨ c = '.') := by
  cases hw : x.whole with
  | cons d ds =>
    have hd : Text.isDigit d = true := h.whole d (by simp [hw])
    exact ⟨d, ds ++ (x.fraction.elim [] ('.' :: ·) ++ x.power.elim [] Power.spelling),
      by simp [Numeral.spelling, hw], .inl hd⟩
  | nil =>
    obtain ⟨d, ds, hf⟩ := h.has_digit hw
    exact ⟨'.', d :: ds ++ x.power.elim [] Power.spelling,
      by simp [Numeral.spelling, hw, hf], .inr rfl⟩

theorem scan?_symbol {c : Char} (hquote : c ≠ '"') (hstart : isNameStart c = false)
    (hdigit : Text.isDigit c = false) (hpoint : c ≠ '.') (cs : List Char) :
    scan? (c :: cs) = scanSymbol? (c :: cs) := by
  have hnumeral : Numeral.scan? (c :: cs) = none := by
    simp only [Numeral.scan?, List.takeWhile_cons, List.dropWhile_cons, hdigit]
    split
    · next hcons => exact absurd (List.cons.inj hcons).1 hpoint
    · rfl
    · next hnil _ => cases hnil
    · next hnil _ => cases hnil
  simp [scan?, hquote, hstart, hnumeral]

/-- Whether a character directly behind a token could go on with it. -/
def goesOnWith : Token → Char → Bool
  | .number _, c => Numeral.isFurther c
  | .name _, c => isNameChar c
  | .operator _, c | .bang, c => c == '=' || c == '>'
  | _, _ => false

/-- Behind a spelled token may come whatever does not go on with it. -/
theorem scan?_spelling_append {t : Token} (h : t.IsSpelled) {rest : List Char}
    (hrest : StopsAt t.goesOnWith rest) : scan? (t.spelling ++ rest) = some (t, rest) := by
  cases t with
  | number x =>
    obtain ⟨c, cs, hcs, hc⟩ := exists_spelling_of_numeral h
    have hscan := Numeral.scan?_spelling_append h hrest
    have hquote : c ≠ '"' := by
      rintro rfl
      revert hc
      decide
    have hstart : isNameStart c = false := by
      rcases hc with hc | rfl
      · exact isNameStart_of_isDigit hc
      · decide
    rw [hcs, List.cons_append] at hscan
    simp only [spelling, hcs, List.cons_append, scan?, hquote, hstart, hscan, if_false,
      Bool.false_eq_true]
  | text content =>
    simp only [spelling, List.cons_append, List.append_assoc, List.nil_append, scan?, if_true]
    exact scanText?_append h
  | name cs =>
    obtain ⟨c, cs, rfl, hstart, hcs⟩ := h
    have hquote : c ≠ '"' := by
      rintro rfl
      revert hstart
      decide
    simp only [spelling, List.cons_append, scan?, hquote, hstart, if_true, if_false,
      takeWhile_run hcs hrest, dropWhile_run hcs hrest]
  | operator op =>
    cases rest with
    | nil => cases op <;> rfl
    | cons c rest =>
      have hc := hrest c rfl
      simp only [goesOnWith, Bool.or_eq_false_iff, beq_eq_false_iff_ne] at hc
      have hscan : scan? (op.symbol.toList ++ c :: rest) =
          scanSymbol? (op.symbol.toList ++ c :: rest) := by
        cases op <;> exact scan?_symbol (by decide) (by decide) (by decide) (by decide) _
      rw [spelling, hscan]
      cases op <;> simp [BinaryOp.symbol, scanSymbol?, hc]
  | bang =>
    cases rest with
    | nil => rfl
    | cons c rest =>
      have hc := hrest c rfl
      simp only [goesOnWith, Bool.or_eq_false_iff, beq_eq_false_iff_ne] at hc
      have hscan : scan? ('!' :: c :: rest) = scanSymbol? ('!' :: c :: rest) :=
        scan?_symbol (by decide) (by decide) (by decide) (by decide) _
      simp [spelling, hscan, scanSymbol?, hc]
  | lparen => rfl
  | rparen => rfl

/-- The spelled tokens are those that are scanned from their spelling. -/
theorem isSpelled_iff_scan? {t : Token} : t.IsSpelled ↔ scan? t.spelling = some (t, []) := by
  constructor
  · intro h
    have hstops : StopsAt t.goesOnWith [] := fun _ hc => by cases hc
    simpa using scan?_spelling_append h hstops
  · exact isSpelled_of_scan?

end Token

theorem Token.isSpace_of_scan? {c : Char} {cs rest : List Char} {t : Token}
    (h : scan? (c :: cs) = some (t, rest)) : isSpace c = false := by
  refine Bool.eq_false_iff.mpr fun hspace => ?_
  have hnone : scan? (c :: cs) = none := by
    simp only [isSpace, Bool.or_eq_true, beq_iff_eq] at hspace
    rcases hspace with (((rfl | rfl) | rfl) | rfl) | rfl <;> rfl
  rw [hnone] at h
  cases h

theorem tokens?_space (cs : List Char) : tokens? (' ' :: cs) = tokens? cs := by
  rw [tokens?]
  rfl

/-- A token that is scanned is the first one of the text. -/
theorem tokens?_of_scan? {cs rest : List Char} {t : Token} (h : Token.scan? cs = some (t, rest)) :
    tokens? cs = (tokens? rest).map (t :: ·) := by
  cases cs with
  | nil => cases h
  | cons c cs =>
    rw [tokens?, Token.isSpace_of_scan? h, if_neg Bool.false_ne_true]
    split
    · next hscan =>
      rw [h] at hscan
      cases hscan
      rfl
    · next hnone =>
      rw [h] at hnone
      cases hnone

theorem tokens?_spelling_append {t : Token} (h : t.IsSpelled) {rest : List Char}
    (hrest : StopsAt t.goesOnWith rest) :
    tokens? (t.spelling ++ rest) = (tokens? rest).map (t :: ·) :=
  tokens?_of_scan? (Token.scan?_spelling_append h hrest)

/-- A blank goes on with no token. -/
theorem Token.goesOnWith_of_isSpace {c : Char} (h : isSpace c = true) (t : Token) :
    t.goesOnWith c = false := by
  simp only [isSpace, Bool.or_eq_true, beq_iff_eq] at h
  rcases h with (((rfl | rfl) | rfl) | rfl) | rfl <;> cases t <;> rfl

def behind (ws : List (List Char)) : List Char := ws.flatMap (' ' :: ·)

def spaced : List (List Char) → List Char
  | [] => []
  | w :: ws => w ++ behind ws

theorem behind_cons (w : List Char) (ws : List (List Char)) :
    behind (w :: ws) = ' ' :: (w ++ behind ws) := by
  simp [behind]

theorem behind_append (ws ws' : List (List Char)) :
    behind (ws ++ ws') = behind ws ++ behind ws' :=
  List.flatMap_append

theorem atBreak_behind (ws : List (List Char)) : AtBreak (behind ws) := by
  cases ws with
  | nil => exact atBreak_nil
  | cons w ws =>
    rw [behind_cons]
    exact atBreak_space _

/-- Whether a word is cut into the given tokens, whatever comes behind it. -/
def CutsInto (w : List Char) (ts : List Token) : Prop :=
  ∀ rest, AtBreak rest → tokens? (w ++ rest) = (tokens? rest).map (ts ++ ·)

theorem Token.IsSpelled.cutsInto {t : Token} (h : t.IsSpelled) : CutsInto t.spelling [t] :=
  fun _ hrest => tokens?_spelling_append h (hrest.stopsAt (t.goesOnWith_of_isSpace rfl))

/-- Spaced words with one more space are words behind nothing. -/
theorem cons_spaced {ws : List (List Char)} (h : ws ≠ []) : ' ' :: spaced ws = behind ws := by
  obtain ⟨w, ws, rfl⟩ := List.exists_cons_of_ne_nil h
  rw [behind_cons, spaced]

/-- The tokens of spaced words are the tokens of each. -/
theorem tokens?_spaced {α : Type} {word : α → List Char} {tokens : α → List Token} {xs : List α}
    (hne : xs ≠ []) (h : ∀ x ∈ xs, CutsInto (word x) (tokens x)) :
    tokens? (spaced (xs.map word)) = some (xs.flatMap tokens) := by
  rw [← tokens?_space, cons_spaced (by simpa using hne)]
  clear hne
  induction xs with
  | nil => simp [behind, tokens?]
  | cons x xs ih =>
    have htail := ih fun y hy => h y (List.mem_cons_of_mem _ hy)
    rw [List.map_cons, behind_cons, tokens?_space,
      h x List.mem_cons_self _ (atBreak_behind _), htail]
    rfl

/-- What a pass over a text does to spaced words, if it does the same to each of
them wherever it stands. The pass is in the state `start` behind every space. -/
theorem pass_spaced {σ α : Type} {pass : σ → List Char → List Char} {start : σ}
    {word out : α → List Char} {xs : List α} (hnil : ∀ s, pass s [] = [])
    (hspace : ∀ s cs, pass s (' ' :: cs) = ' ' :: pass start cs)
    (h : ∀ x ∈ xs, ∀ rest, AtBreak rest → ∃ s, pass start (word x ++ rest) = out x ++ pass s rest) :
    pass start (spaced (xs.map word)) = spaced (xs.map out) := by
  have hbehind : ∀ s, pass s (behind (xs.map word)) = behind (xs.map out) := by
    induction xs with
    | nil => exact hnil
    | cons x xs ih =>
      intro s
      have htail := ih fun y hy => h y (List.mem_cons_of_mem _ hy)
      obtain ⟨s', hx⟩ := h x List.mem_cons_self _ (atBreak_behind (xs.map word))
      rw [List.map_cons, List.map_cons, behind_cons, behind_cons, hspace, hx, htail]
  cases xs with
  | nil => exact hnil start
  | cons x xs =>
    have hall := hbehind start
    rw [← cons_spaced (by simp), ← cons_spaced (by simp), hspace] at hall
    exact List.tail_eq_of_cons_eq hall

end LineBasic
