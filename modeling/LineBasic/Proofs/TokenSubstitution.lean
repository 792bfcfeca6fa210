import LineBasic.Proofs.Substitution

/-!
Substitution and the tokens of expressions. Where tokens are written with single spaces between
them, substitution goes from token to token: it replaces the names and passes over every other
token, with one exception. A point is no word character, so the power of ten behind a bare point
starts like a name, and a numeral such as `1.e5` is torn apart where E5 is a variable.
-/

namespace LineBasic

open Condition

namespace Power

/-- The start of a power of ten that looks like a name: its mark, with its digits if no sign
stands between them. -/
def word (p : Power) : List Char := p.mark :: if p.sign = [] then p.digits else []

def behindWord (p : Power) : List Char := if p.sign = [] then [] else p.sign ++ p.digits

theorem word_append_behindWord (p : Power) : p.word ++ p.behindWord = p.spelling := by
  rw [word, behindWord, spelling]
  split
  · next h => simp [h]
  · simp

end Power

/-- The power of ten of a numeral, if it stands behind a bare point. -/
def Numeral.exposed? (x : Numeral) : Option Power := if x.fraction = some [] then x.power else none

namespace Token

/-- A token with the names replaced: by the literal of the value, or else by the operator that the
name stands for. -/
def replaced (env : Environment) : Token → List Char
  | .name cs => substitutePiece env (.word cs)
  | t => t.spelling

def substituted (env : Environment) : Token → List Char
  | .name cs => substitutePiece env (.word cs)
  | .number x =>
    match x.exposed? with
    | some p => x.whole ++ '.' :: (substitutePiece env (.word p.word) ++ p.behindWord)
    | none => x.spelling
  | t => t.spelling

/-- Whether substitution passes over the numerals among tokens: no exposed power of ten has the
name of a variable. -/
def NumeralsStay (env : Environment) (ts : List Token) : Prop :=
  ∀ x p, .number x ∈ ts → x.exposed? = some p → env.get? (String.ofList p.word) = none

end Token

/-- The literal of a value does not start like a power of ten. -/
theorem Value.exists_literal (v : Value) : ∃ c cs, v.literal = c :: cs ∧ c ≠ 'e' ∧ c ≠ 'E' := by
  have hnumeral {x : Numeral} (hx : x.IsSpelled) : ∃ c cs, x.spelling = c :: cs ∧
      c ≠ 'e' ∧ c ≠ 'E' := by
    obtain ⟨c, cs, hspelling, hc⟩ := Token.exists_spelling_of_numeral hx
    refine ⟨c, cs, hspelling, ?_⟩
    rcases hc with hc | rfl
    · exact ⟨ne_of_isDigit hc (by decide), ne_of_isDigit hc (by decide)⟩
    · decide
  cases v with
  | text s => exact ⟨'"', s.toList ++ ['"'], rfl, by decide⟩
  | number x =>
    by_cases hnan : Binary64.decode x = .nan
    · refine ⟨'N', ['a', 'N'], ?_, by decide⟩
      rw [literal, hnan, numberText, hnan]
      rfl
    · have hwritable : (Value.number x).IsWritable := hnan
      obtain ⟨w, hreads, hliteral, -⟩ := hwritable.exists_readsBack
      rw [← hliteral]
      rcases hreads.cases with ⟨s, rfl, -⟩ | ⟨y, hy, -, hspelling⟩ | ⟨y, -, -, hspelling⟩
      · exact ⟨'"', s.toList ++ ['"'], rfl, by decide⟩
      · rw [hspelling]
        exact hnumeral hy
      · exact ⟨'-', y.spelling, hspelling, by decide⟩

section Exposed

variable {env : Environment} {x : Numeral} {p : Power} {rest : List Char}

theorem Numeral.spelling_of_exposed (h : x.exposed? = some p) :
    x.fraction = some [] ∧ x.power = some p ∧ x.spelling = x.whole ++ '.' :: p.spelling := by
  unfold exposed? at h
  split at h
  · next hf => exact ⟨hf, h, by simp [spelling, hf, h]⟩
  · cases h

theorem Numeral.power_of_not_exposed (h : x.exposed? = none) :
    x.power ≠ none → x.fraction ≠ some [] := by
  intro hp hf
  rw [exposed?, if_pos hf] at h
  exact hp h

theorem Power.isNameStart_mark (hp : p.IsSpelled) : isNameStart p.mark = true := by
  rcases hp.mark with hmark | hmark <;> rw [hmark] <;> decide

theorem Power.forall_isWord (hp : p.IsSpelled) :
    ∀ d ∈ (if p.sign = [] then p.digits else []), Text.isWord d = true := by
  intro d hd
  split at hd
  · exact Text.isWord_of_isDigit (hp.digits d hd)
  · cases hd

theorem Power.head?_upper_word (hp : p.IsSpelled) : (Text.upper p.word).head? = some 'E' := by
  have hmark : Text.upperChar p.mark = ['E'] := by
    rcases hp.mark with hmark | hmark <;> rw [hmark] <;> decide +kernel
  simp [word, Text.upper, hmark]

/-- A power of ten is no logical word. -/
theorem logicalWord?_power (hp : p.IsSpelled) :
    logicalWord? (Text.upperString (String.ofList p.word)) = none := by
  have hne {name : String} (hname : name.toList.head? ≠ some 'E') :
      Text.upperString (String.ofList p.word) ≠ name := by
    rintro rfl
    apply hname
    simpa [Text.upperString] using Power.head?_upper_word hp
  rw [logicalWord?, if_neg (hne (by decide)), if_neg (hne (by decide)), if_neg (hne (by decide))]

/-- Behind the word there is nothing, or else a sign and digits. -/
theorem Power.behindWord_cases (hp : p.IsSpelled) :
    p.behindWord = [] ∨ ∃ c, (c = '+' ∨ c = '-') ∧ p.behindWord = c :: p.digits := by
  rw [behindWord]
  rcases hp.sign with hsign | hsign | hsign
  · exact .inl (if_pos hsign)
  · exact .inr ⟨'+', .inl rfl, by simp [hsign]⟩
  · exact .inr ⟨'-', .inr rfl, by simp [hsign]⟩

theorem Power.isBare_behindWord (hp : p.IsSpelled) : Piece.isBare true p.behindWord = true := by
  rcases behindWord_cases hp with hnil | ⟨c, hc, hcons⟩
  · rw [hnil]
    rfl
  · have hplain : c ≠ '"' ∧ isNameStart c = false := by
      rcases hc with rfl | rfl <;> decide
    rw [hcons]
    exact Piece.isBare_cons.mpr ⟨⟨hplain.1, .inr hplain.2⟩, Piece.isBare_digits hp.digits _⟩

theorem Power.stopsAt_behindWord (hp : p.IsSpelled) (hrest : StopsAt Text.isWord rest) :
    StopsAt Text.isWord (p.behindWord ++ rest) := by
  rcases behindWord_cases hp with hnil | ⟨c, hc, hcons⟩
  · rw [hnil]
    exact hrest
  · rw [hcons]
    refine stopsAt_cons ?_
    rcases hc with rfl | rfl <;> decide

/-- The digits and the point in front of an exposed power of ten open nothing, and no word goes
on from the point. -/
theorem Numeral.isBare_point (hx : x.IsSpelled) (before : Bool) :
    Piece.isBare before (x.whole ++ ['.']) = true ∧
      Text.wordAfter before (x.whole ++ ['.']) = false := by
  constructor
  · rw [Piece.isBare_append, Piece.isBare_digits hx.whole, Bool.true_and]
    exact Piece.isBare_of_forall (forall_mem_of_all (by decide)) _
  · rw [Text.wordAfter_append]
    rfl

/-- An exposed power of ten is replaced like a name. -/
theorem fill_exposed (env : Environment) (hx : x.IsSpelled) (h : x.exposed? = some p)
    (hrest : AtBreak rest) : ∃ b, fill env false (x.spelling ++ rest) =
      x.whole ++ '.' :: (substitutePiece env (.word p.word) ++ p.behindWord) ++
        fill env b rest := by
  obtain ⟨-, hpower, hspelling⟩ := Numeral.spelling_of_exposed h
  have hp := hx.power p hpower
  obtain ⟨hfront, hpoint⟩ := Numeral.isBare_point hx false
  have hstops := Power.stopsAt_behindWord hp (hrest.stopsAt (by decide))
  refine ⟨Text.wordAfter true p.behindWord, ?_⟩
  calc fill env false (x.spelling ++ rest)
      = fill env false (x.whole ++ ['.'] ++ (p.word ++ (p.behindWord ++ rest))) := by
        rw [hspelling, ← p.word_append_behindWord]
        simp
    _ = x.whole ++ ['.'] ++ (substitutePiece env (.word p.word) ++
          (p.behindWord ++ fill env (Text.wordAfter true p.behindWord) rest)) := by
        rw [fill_bare env hfront, hpoint, Power.word,
          fill_word env (Power.isNameStart_mark hp) (Power.forall_isWord hp) hstops,
          fill_bare env (Power.isBare_behindWord hp)]
    _ = x.whole ++ '.' :: (substitutePiece env (.word p.word) ++ p.behindWord) ++
          fill env (Text.wordAfter true p.behindWord) rest := by
        simp

end Exposed

namespace Token

section Substituted

variable {env : Environment} {t : Token} {rest : List Char}

/-- Substitution goes from token to token. -/
theorem fill_spelling (env : Environment) (ht : t.IsSpelled) (hrest : AtBreak rest) :
    ∃ b, fill env false (t.spelling ++ rest) = t.substituted env ++ fill env b rest := by
  have hbare {cs : List Char} (hcs : Piece.isBare false cs = true) :
      ∃ b, fill env false (cs ++ rest) = cs ++ fill env b rest := ⟨_, fill_bare env hcs rest⟩
  cases t with
  | number x =>
    cases hexposed : x.exposed? with
    | none =>
      simp only [substituted, hexposed]
      exact hbare (Piece.isBare_numeral ht (Numeral.power_of_not_exposed hexposed) false)
    | some p =>
      simp only [substituted, hexposed]
      exact fill_exposed env ht hexposed hrest
  | text content =>
    refine ⟨false, ?_⟩
    simpa [spelling, substituted] using fill_quoted ht
  | name cs =>
    obtain ⟨c, cs, rfl, hstart, hcs⟩ := ht
    have hword : ∀ d ∈ cs, Text.isWord d = true := fun d hd => isWord_of_isNameChar (hcs d hd)
    exact ⟨true, fill_word env hstart hword (hrest.stopsAt (by decide))⟩
  | operator op => exact hbare (by cases op <;> decide)
  | _ => exact hbare (by decide)

theorem substituted_eq_replaced (ht : t.IsSpelled)
    (h : ∀ x p, t = .number x → x.exposed? = some p → env.get? (String.ofList p.word) = none) :
    t.substituted env = t.replaced env := by
  cases t with
  | number x =>
    simp only [substituted, replaced]
    split
    · next p hp =>
      obtain ⟨-, hpower, hspelling⟩ := Numeral.spelling_of_exposed hp
      rw [substitutePiece_free (h x p rfl hp) (logicalWord?_power (ht.power p hpower)),
        p.word_append_behindWord, spelling, hspelling]
    · rfl
  | _ => rfl

/-- Whatever stands behind them, a token as it is substituted and as its name is replaced differ
where the literal of a value has come into a numeral. -/
theorem stays_of_append {ds es : List Char} (h : t.substituted env ++ ds = t.replaced env ++ es)
    (ht : t.IsSpelled) {x : Numeral} {p : Power} (hx : t = .number x) (hp : x.exposed? = some p) :
    env.get? (String.ofList p.word) = none := by
  subst hx
  obtain ⟨-, hpower, hspelling⟩ := Numeral.spelling_of_exposed hp
  refine Option.eq_none_iff_forall_not_mem.mpr fun v hv => ?_
  obtain ⟨c, cs, hliteral, hmark⟩ := v.exists_literal
  simp only [substituted, hp, replaced, spelling, hspelling, substitutePiece_bound hv, hliteral,
    Power.spelling, List.append_assoc, List.cons_append] at h
  have hheads := List.append_cancel_left h
  injection hheads with _ hheads
  injection hheads with heq _
  have hspelled : x.IsSpelled := ht
  rcases (hspelled.power p hpower).mark with hp | hp
  · exact hmark.1 (heq.trans hp)
  · exact hmark.2 (heq.trans hp)

/-- Where the first numeral is torn apart, the texts differ. -/
theorem numeralsStay_of_behind {ts : List Token} (hts : ∀ t ∈ ts, t.IsSpelled)
    (h : behind (ts.map (substituted env)) = behind (ts.map (replaced env))) :
    NumeralsStay env ts := by
  induction ts with
  | nil =>
    intro x p hx
    cases hx
  | cons t ts ih =>
    have ht := hts t List.mem_cons_self
    rw [List.map_cons, List.map_cons, behind_cons, behind_cons] at h
    have htail := (List.cons.inj h).2
    -- Both texts begin with the same token, so they can be compared behind it.
    have hstays : ∀ x p, t = .number x → x.exposed? = some p →
        env.get? (String.ofList p.word) = none := fun x p hx hp => stays_of_append htail ht hx hp
    rw [substituted_eq_replaced ht hstays] at htail
    have hrest := ih (fun u hu => hts u (List.mem_cons_of_mem t hu)) (List.append_cancel_left htail)
    intro x p hx hp
    rcases List.mem_cons.mp hx with rfl | hx
    · exact hstays x p rfl hp
    · exact hrest x p hx hp

end Substituted

end Token

/-- Substitution in spaced tokens goes from token to token. It replaces exactly the names, and
leaves every other token as it is, if and only if no power of ten behind a bare point has the name
of a variable. -/
theorem substitute_spaced (env : Environment) {ts : List Token} (hts : ∀ t ∈ ts, t.IsSpelled) :
    substitute env (spaced (ts.map Token.spelling)) = spaced (ts.map (Token.substituted env)) ∧
      (substitute env (spaced (ts.map Token.spelling)) = spaced (ts.map (Token.replaced env)) ↔
        Token.NumeralsStay env ts) := by
  have hsubstitute : substitute env (spaced (ts.map Token.spelling)) =
      spaced (ts.map (Token.substituted env)) :=
    @pass_spaced _ _ (fill env) false _ _ _ (fun _ => fill_nil) (fun _ _ => fill_space)
      fun t ht _ hrest => Token.fill_spelling env (hts t ht) hrest
  refine ⟨hsubstitute, ?_⟩
  rw [hsubstitute]
  constructor
  · intro h
    refine Token.numeralsStay_of_behind hts ?_
    cases ts with
    | nil => rfl
    | cons t ts => rw [← cons_spaced (by simp), ← cons_spaced (by simp), h]
  · intro hstay
    have heq : ts.map (Token.substituted env) = ts.map (Token.replaced env) :=
      List.map_congr_left fun t ht =>
        Token.substituted_eq_replaced (hts t ht) fun x p hx => hstay x p (hx ▸ ht)
    rw [heq]

def Numeral.behindBarePoint : Numeral := ⟨['1'], some [], some ⟨'e', [], ['5']⟩⟩

/-- Where E5 is no variable, the numeral stays. -/
theorem substitute_spaced_at_free_power :
    substitute (.single "A" (.number 2)) (spaced ([Token.name ['a'], .operator .less,
        .number .behindBarePoint].map Token.spelling)) =
      spaced ([Token.name ['a'], .operator .less, .number .behindBarePoint].map
        (Token.replaced (.single "A" (.number 2)))) := by
  have hspelled : ∀ t ∈ [Token.name ['a'], .operator .less, .number .behindBarePoint],
      t.IsSpelled := by
    intro t ht
    apply Token.isSpelled_iff_scan?.mpr
    revert t
    decide
  refine (substitute_spaced _ hspelled).2.mpr fun x p hx hp => ?_
  have hbare : x = .behindBarePoint := by simpa using hx
  subst hbare
  cases hp
  rw [Environment.get?_single]
  exact if_neg (by decide +kernel)

/-- Where E5 is a variable, its value comes into the numeral. -/
theorem substitute_tears_bound_power :
    tokens? "1.e5".toList = some [.number .behindBarePoint] ∧
      substitute (.single "E5" (.number 2)) (spaced ([Token.number .behindBarePoint].map
        Token.spelling)) = "1.2".toList ∧
      spaced ([Token.number .behindBarePoint].map (Token.replaced (.single "E5" (.number 2)))) =
        "1.e5".toList := by
  decide +kernel

end LineBasic
