import LineBasic.Condition
import LineBasic.Proofs.Pieces

/-!
The texts of conditions and what is done to them. `Written` is a token with one
of the ways to write it in a condition. Each pass over a text goes from word to
word: substitution fills in the variables and the logical operators, and the
second pass doubles the equals signs.
-/

namespace LineBasic

inductive Token.WrittenAs : Token → List Char → Prop
  | spelled (t : Token) : t.WrittenAs t.spelling
  | word {t : Token} {w : List Char} (hname : (Token.name w).IsSpelled)
      (hword : Condition.logicalWord? (Text.upperString (String.ofList w)) =
        some (String.ofList t.spelling)) : t.WrittenAs w
  | equal : (Token.operator .equal).WrittenAs ['=']

structure Written where
  token : Token
  word : List Char
  spelled : token.IsSpelled
  written : token.WrittenAs word

namespace Condition

/-- Substitution from some point of a text on. `afterWord` tells whether a word
character stands before it. -/
def fill (env : Environment) (afterWord : Bool) (cs : List Char) : List Char :=
  (Piece.cut afterWord cs).flatMap (substitutePiece env)

section Fill

variable {env : Environment} {afterWord : Bool} {c : Char} {cs rest : List Char}

theorem fill_nil : fill env afterWord [] = [] := by
  simp [fill]

/-- Single characters stay. -/
theorem flatMap_others (env : Environment) (cs : List Char) :
    (cs.map Piece.other).flatMap (substitutePiece env) = cs := by
  rw [List.flatMap_map]
  exact List.flatMap_singleton' cs

/-- What opens neither a literal nor a word stays. -/
theorem fill_bare (env : Environment) (h : Piece.isBare afterWord cs = true) (rest : List Char) :
    fill env afterWord (cs ++ rest) = cs ++ fill env (Text.wordAfter afterWord cs) rest := by
  rw [fill, Piece.cut_bare h, List.flatMap_append, flatMap_others]
  rfl

theorem fill_space : fill env afterWord (' ' :: cs) = ' ' :: fill env false cs := by
  have hspace : Piece.isBare afterWord [' '] = true :=
    Piece.isBare_of_forall (forall_mem_of_all (by decide)) afterWord
  exact fill_bare env hspace cs

/-- A text literal stays. -/
theorem fill_quoted (h : ∀ c ∈ cs, isInsideQuotes c = true) :
    fill env afterWord ('"' :: (cs ++ '"' :: rest)) =
      '"' :: (cs ++ '"' :: fill env false rest) := by
  simp [fill, Piece.cut_quoted h, substitutePiece, Piece.spelling]

/-- A word is filled in as a whole. -/
theorem fill_word (env : Environment) (hstart : isNameStart c = true)
    (hcs : ∀ d ∈ cs, Text.isWord d = true) (hrest : StopsAt Text.isWord rest) :
    fill env false (c :: cs ++ rest) =
      substitutePiece env (.word (c :: cs)) ++ fill env true rest := by
  rw [fill, Piece.cut_word hstart hcs hrest, List.flatMap_cons]
  rfl

end Fill

section Doubling

variable {before : Option Char} {cs rest : List Char}

/-- Only a character that belongs to an operator matters in front of a text. -/
theorem doubleEqualsAfter_congr {before before' : Option Char} {quoted : Bool} (cs : List Char)
    (h : before.any bindsEquals = before'.any bindsEquals) :
    doubleEqualsAfter before quoted cs = doubleEqualsAfter before' quoted cs := by
  cases cs with
  | nil => rfl
  | cons c cs => simp only [doubleEqualsAfter, h]

theorem doubleEqualsAfter_space :
    doubleEqualsAfter before false (' ' :: cs) = ' ' :: doubleEqualsAfter (some ' ') false cs := by
  simp [doubleEqualsAfter]

/-- Outside literals characters other than equals signs stay. -/
theorem doubleEqualsAfter_plain (before : Option Char) (rest : List Char)
    (hcs : ∀ c ∈ cs, c ≠ '"' ∧ c ≠ '=') :
    ∃ before', doubleEqualsAfter before false (cs ++ rest) =
      cs ++ doubleEqualsAfter before' false rest := by
  induction cs generalizing before with
  | nil => exact ⟨before, rfl⟩
  | cons c cs ih =>
    obtain ⟨hquote, hequals⟩ := hcs c List.mem_cons_self
    obtain ⟨before', htail⟩ := ih (some c) fun d hd => hcs d (List.mem_cons_of_mem _ hd)
    exact ⟨before', by simp [doubleEqualsAfter, hquote, hequals, htail]⟩

/-- Inside a literal everything stays. -/
theorem doubleEqualsAfter_inside (before : Option Char) (rest : List Char)
    (hcs : ∀ c ∈ cs, isInsideQuotes c = true) :
    doubleEqualsAfter before true (cs ++ '"' :: rest) =
      cs ++ '"' :: doubleEqualsAfter (some '"') false rest := by
  induction cs generalizing before with
  | nil => simp [doubleEqualsAfter]
  | cons c cs ih =>
    have hquote : c ≠ '"' := by simpa [isInsideQuotes] using hcs c List.mem_cons_self
    have htail := ih (some c) fun d hd => hcs d (List.mem_cons_of_mem _ hd)
    simp [doubleEqualsAfter, hquote, htail]

theorem doubleEqualsAfter_quoted (hcs : ∀ c ∈ cs, isInsideQuotes c = true) :
    doubleEqualsAfter before false ('"' :: (cs ++ '"' :: rest)) =
      '"' :: (cs ++ '"' :: doubleEqualsAfter (some '"') false rest) := by
  simp [doubleEqualsAfter, doubleEqualsAfter_inside _ _ hcs]

/-- A single equals sign is doubled. -/
theorem doubleEqualsAfter_equals (hbefore : before.any bindsEquals = false)
    (hrest : AtBreak rest) :
    doubleEqualsAfter before false ('=' :: rest) =
      '=' :: '=' :: doubleEqualsAfter (some '=') false rest := by
  have hnext : rest.head? ≠ some '=' := fun h => by
    have hspace := hrest _ h
    revert hspace
    decide
  simp [doubleEqualsAfter, hbefore, hnext]

/-- Operators stay. -/
theorem doubleEqualsAfter_operator (op : BinaryOp) :
    ∃ before', doubleEqualsAfter before false (op.symbol.toList ++ rest) =
      op.symbol.toList ++ doubleEqualsAfter before' false rest := by
  cases op with
  | equal => exact ⟨some '=', by simp [BinaryOp.symbol, doubleEqualsAfter, bindsEquals]⟩
  | notEqual => exact ⟨some '=', by simp [BinaryOp.symbol, doubleEqualsAfter, bindsEquals]⟩
  | lessEqual => exact ⟨some '=', by simp [BinaryOp.symbol, doubleEqualsAfter, bindsEquals]⟩
  | greaterEqual => exact ⟨some '=', by simp [BinaryOp.symbol, doubleEqualsAfter, bindsEquals]⟩
  | _ => exact doubleEqualsAfter_plain before rest (forall_mem_of_all (by decide))

end Doubling

end Condition

/-- The number that the literal of a number is read as. A minus in front is a
negation. -/
def readLiteral? : List Char → Option Float
  | '-' :: cs => (Numeral.ofText? cs).map fun x => -x.value
  | cs => (Numeral.ofText? cs).map Numeral.value

/-- Whether the literal of a value denotes it: a text holds no double quote, and
a number is read back from its literal. -/
def Value.ReadsBack : Value → Prop
  | .text s => '"' ∉ s.toList
  | .number x => readLiteral? (Value.number x).literal = some x

instance (v : Value) : Decidable v.ReadsBack :=
  match v with
  | .text s => inferInstanceAs (Decidable ('"' ∉ s.toList))
  | .number x => inferInstanceAs (Decidable (readLiteral? (Value.number x).literal = some x))

theorem Numeral.exists_of_ofText? {cs : List Char} {x : Numeral} (h : ofText? cs = some x) :
    x.IsSpelled ∧ cs = x.spelling := by
  unfold ofText? at h
  split at h
  · next hscan =>
    cases h
    have hcs := spelling_append_of_scan? hscan
    exact ⟨isSpelled_of_scan? hscan, by simpa using hcs.symm⟩
  · cases h

/-- The literals of values that are read back are texts between quotes and
numerals, which may be negated. -/
theorem Value.ReadsBack.cases {v : Value} (h : v.ReadsBack) :
    (∃ s : String, v = .text s ∧ ∀ c ∈ s.toList, isInsideQuotes c = true) ∨
      (∃ x : Numeral, x.IsSpelled ∧ v = .number x.value ∧ v.literal = x.spelling) ∨
      ∃ x : Numeral, x.IsSpelled ∧ v = .number (-x.value) ∧ v.literal = '-' :: x.spelling := by
  cases v with
  | text s =>
    refine .inl ⟨s, rfl, fun c hc => ?_⟩
    have hquote : c ≠ '"' := fun heq => h (heq ▸ hc)
    simp [isInsideQuotes, hquote]
  | number x =>
    simp only [ReadsBack] at h
    unfold readLiteral? at h
    split at h
    · next cs hliteral =>
      obtain ⟨y, hy, rfl⟩ := Option.map_eq_some_iff.mp h
      obtain ⟨hspelled, rfl⟩ := Numeral.exists_of_ofText? hy
      exact .inr (.inr ⟨y, hspelled, rfl, hliteral⟩)
    · obtain ⟨y, hy, rfl⟩ := Option.map_eq_some_iff.mp h
      obtain ⟨hspelled, hcs⟩ := Numeral.exists_of_ofText? hy
      exact .inr (.inl ⟨y, hspelled, rfl, hcs⟩)

/-- The text that stands for a token once the variables are filled in. -/
def Token.filled (env : Environment) : Token → List Char
  | .name cs =>
    match env.get? (String.ofList cs) with
    | some v => v.literal
    | none => cs
  | t => t.spelling

def Environment.LeavesLogicalWords (env : Environment) : Prop :=
  ∀ name, Condition.logicalWord? name ≠ none → env.get? name = none

theorem Token.IsSpelled.spelling_ne_equals {t : Token} (h : t.IsSpelled) : t.spelling ≠ ['='] := by
  intro heq
  have hscan := isSpelled_iff_scan?.mp h
  rw [heq] at hscan
  cases hscan

theorem logicalWord?_cases {name symbol : String}
    (h : Condition.logicalWord? name = some symbol) :
    symbol = "&&" ∨ symbol = "||" ∨ symbol = "!" := by
  unfold Condition.logicalWord? at h
  split at h
  · exact .inl (Option.some.inj h).symm
  · split at h
    · exact .inr (.inl (Option.some.inj h).symm)
    · split at h
      · exact .inr (.inr (Option.some.inj h).symm)
      · cases h

/-- Names are looked up by their upper case. -/
theorem Environment.get?_upperString (env : Environment) {cs : List Char}
    (h : (Token.name cs).IsSpelled) :
    env.get? (Text.upperString (String.ofList cs)) = env.get? (String.ofList cs) := by
  obtain ⟨c, cs, rfl, hstart, hcs⟩ := h
  have hall : ∀ d ∈ c :: cs, isNameChar d = true := by
    intro d hd
    rcases List.mem_cons.mp hd with rfl | hd
    · exact isNameChar_of_isNameStart hstart
    · exact hcs d hd
  simp [get?, Text.upperString, upper_upper_of_isNameChar hall]

/-- A token that is spelled like the operator of a logical word is no name. -/
theorem Token.filled_of_logical {env : Environment} {t : Token} {name : String}
    (h : t.IsSpelled) (hword : Condition.logicalWord? name = some (String.ofList t.spelling)) :
    t.filled env = t.spelling := by
  cases t with
  | name cs =>
    obtain ⟨c, cs, rfl, hstart, _⟩ := h
    have hc : c = '&' ∨ c = '|' ∨ c = '!' := by
      rcases logicalWord?_cases hword with heq | heq | heq
      · exact .inl (List.cons.inj (String.ofList_injective heq)).1
      · exact .inr (.inl (List.cons.inj (String.ofList_injective heq)).1)
      · exact .inr (.inr (List.cons.inj (String.ofList_injective heq)).1)
    have hfalse : isNameStart c = false := by
      rcases hc with rfl | rfl | rfl <;> decide
    rw [hstart] at hfalse
    cases hfalse
  | _ => rfl

/-- The numerals hold no quotes and no equals signs. -/
theorem Numeral.IsSpelled.ne_of_mem {x : Numeral} (h : x.IsSpelled) :
    ∀ c ∈ x.spelling, c ≠ '"' ∧ c ≠ '=' :=
  h.forall_mem (fun c hc => ⟨ne_of_isDigit hc (by decide), ne_of_isDigit hc (by decide)⟩)
    (forall_mem_of_all (by decide))

def Environment.ReadsBack (env : Environment) : Prop :=
  ∀ name v, env.get? name = some v → v.ReadsBack

section Filled

open Condition

variable {env : Environment} {before : Option Char} {rest : List Char}

/-- The literal of a value that is read back holds no equals sign outside of
quotes. -/
theorem doubleEqualsAfter_literal {v : Value} (h : v.ReadsBack) : ∃ before',
    doubleEqualsAfter before false (v.literal ++ rest) =
      v.literal ++ doubleEqualsAfter before' false rest := by
  rcases h.cases with ⟨s, rfl, hs⟩ | ⟨x, hx, _, hliteral⟩ | ⟨x, hx, _, hliteral⟩
  · refine ⟨some '"', ?_⟩
    simpa [Value.literal] using doubleEqualsAfter_quoted hs
  · rw [hliteral]
    exact doubleEqualsAfter_plain before rest hx.ne_of_mem
  · rw [hliteral]
    refine doubleEqualsAfter_plain before rest fun c hc => ?_
    rcases List.mem_cons.mp hc with rfl | hc
    · decide
    · exact hx.ne_of_mem c hc

theorem doubleEqualsAfter_filled {t : Token} (ht : t.IsSpelled) (henv : env.ReadsBack) :
    ∃ before', doubleEqualsAfter before false (t.filled env ++ rest) =
      t.filled env ++ doubleEqualsAfter before' false rest := by
  cases t with
  | number x => exact doubleEqualsAfter_plain before rest ht.ne_of_mem
  | text content =>
    refine ⟨some '"', ?_⟩
    simpa [Token.filled, Token.spelling] using doubleEqualsAfter_quoted ht
  | name cs =>
    simp only [Token.filled]
    split
    · next v hv => exact doubleEqualsAfter_literal (henv _ v hv)
    · refine doubleEqualsAfter_plain before rest fun c hc => ?_
      obtain ⟨d, ds, rfl, hstart, hds⟩ := ht
      have hchar : isNameChar c = true := by
        rcases List.mem_cons.mp hc with rfl | hc
        · exact isNameChar_of_isNameStart hstart
        · exact hds c hc
      constructor
      · rintro rfl
        revert hchar
        decide
      · rintro rfl
        revert hchar
        decide
  | operator op => exact doubleEqualsAfter_operator op
  | _ => exact doubleEqualsAfter_plain before rest (by simp [Token.filled, Token.spelling])

end Filled

namespace Written

structure IsPlain (w : Written) : Prop where
  power : ∀ x, w.token = .number x → x.power ≠ none → x.fraction ≠ some []
  name : ∀ cs, w.token = .name cs →
    Condition.logicalWord? (Text.upperString (String.ofList cs)) = none

/-- What substitution leaves of a written token: its filled text, but a single
equals sign stays. -/
def substituted (env : Environment) (w : Written) : List Char :=
  if w.word = ['='] then ['='] else w.token.filled env

section Passes

variable {env : Environment} {rest : List Char}

theorem fill_word (w : Written) (hw : w.IsPlain) (henv : env.LeavesLogicalWords)
    (hrest : AtBreak rest) :
    ∃ b, Condition.fill env false (w.word ++ rest) =
      w.substituted env ++ Condition.fill env b rest := by
  have hstops : StopsAt Text.isWord rest := hrest.stopsAt (by decide)
  have hword {cs : List Char} (hcs : ∀ d ∈ cs, isNameChar d = true) :
      ∀ d ∈ cs, Text.isWord d = true := fun d hd => isWord_of_isNameChar (hcs d hd)
  have hbare {cs : List Char} (hcs : Piece.isBare false cs = true) :
      ∃ b, Condition.fill env false (cs ++ rest) = cs ++ Condition.fill env b rest :=
    ⟨_, Condition.fill_bare env hcs rest⟩
  obtain ⟨t, word, hspelled, hwritten⟩ := w
  cases hwritten with
  | spelled =>
    have hne := hspelled.spelling_ne_equals
    simp only [substituted, if_neg hne]
    cases t with
    | number x => exact hbare (Piece.isBare_numeral hspelled (hw.power x rfl) false)
    | text content =>
      refine ⟨false, ?_⟩
      simpa [Token.spelling, Token.filled] using Condition.fill_quoted hspelled
    | name cs =>
      obtain ⟨c, cs, rfl, hstart, hcs⟩ := hspelled
      have hfill := Condition.fill_word env hstart (hword hcs) hstops
      refine ⟨true, ?_⟩
      simp only [Condition.substitutePiece, hw.name _ rfl] at hfill
      exact hfill
    | operator op => exact hbare (by cases op <;> decide)
    | _ => exact hbare (by decide)
  | word hname hlogical =>
    have hunbound : env.get? (String.ofList word) = none := by
      rw [← env.get?_upperString hname]
      exact henv _ (by simp [hlogical])
    have hne : word ≠ ['='] := hname.spelling_ne_equals
    simp only [substituted, if_neg hne, Token.filled_of_logical hspelled hlogical]
    obtain ⟨c, cs, rfl, hstart, hcs⟩ := hname
    have hfill := Condition.fill_word env hstart (hword hcs) hstops
    simp only [Condition.substitutePiece, hunbound, hlogical] at hfill
    exact ⟨true, by simpa using hfill⟩
  | equal =>
    simp only [substituted, if_pos]
    exact hbare (by decide)

theorem double_word (w : Written) (henv : env.ReadsBack) {before : Option Char}
    (hbefore : before.any Condition.bindsEquals = false) (hrest : AtBreak rest) : ∃ before',
      Condition.doubleEqualsAfter before false (w.substituted env ++ rest) =
        w.token.filled env ++ Condition.doubleEqualsAfter before' false rest := by
  by_cases hword : w.word = ['=']
  · have htoken : w.token = .operator .equal := by
      obtain ⟨t, word, hspelled, hwritten⟩ := w
      cases hwritten with
      | spelled => exact absurd hword hspelled.spelling_ne_equals
      | word hname _ => exact absurd hword hname.spelling_ne_equals
      | equal => rfl
    simp only [substituted, if_pos hword, htoken]
    exact ⟨some '=', Condition.doubleEqualsAfter_equals hbefore hrest⟩
  · simp only [substituted, if_neg hword]
    exact doubleEqualsAfter_filled w.spelled henv

end Passes

/-- Expanding the text of written tokens fills in each of them. -/
theorem expand_spaced {env : Environment} {ws : List Written} (hws : ∀ w ∈ ws, w.IsPlain)
    (hwords : env.LeavesLogicalWords) (henv : env.ReadsBack) :
    Condition.doubleEquals (Condition.substitute env (spaced (ws.map word))) =
      spaced (ws.map fun w => w.token.filled env) := by
  have hsubstitute : Condition.substitute env (spaced (ws.map word)) =
      spaced (ws.map (substituted env)) :=
    @pass_spaced _ _ (Condition.fill env) false _ _ _
      (fun _ => Condition.fill_nil) (fun _ _ => Condition.fill_space)
      fun w hw rest hrest => fill_word w (hws w hw) hwords hrest
  have hdouble : Condition.doubleEqualsAfter (some ' ') false (spaced (ws.map (substituted env))) =
      spaced (ws.map fun w => w.token.filled env) :=
    @pass_spaced _ _ (fun before => Condition.doubleEqualsAfter before false) (some ' ') _ _ _
      (fun _ => rfl) (fun _ _ => Condition.doubleEqualsAfter_space)
      fun w _ rest hrest => double_word w henv rfl hrest
  have hstart : Condition.doubleEqualsAfter none false (spaced (ws.map (substituted env))) =
      Condition.doubleEqualsAfter (some ' ') false (spaced (ws.map (substituted env))) :=
    Condition.doubleEqualsAfter_congr _ rfl
  rw [hsubstitute, Condition.doubleEquals, hstart, hdouble]

end Written

end LineBasic
