import LineBasic.Expr.Basic
import LineBasic.Text.Word

/-!
The tokens of expressions. `Token.scan?` takes the longest token from the
front of a text and `tokens?` cuts a whole text into its tokens. Only space,
tab, form feed, carriage return and line feed may stand between tokens, and
names are ASCII.

`spelling_append_of_scan?` says that a token's spelling is what was consumed.
-/

namespace LineBasic

inductive Token where
  | number (numeral : Numeral)
  | text (content : List Char)
  | name (spelling : List Char)
  | operator (op : BinaryOp)
  | bang
  | lparen
  | rparen
deriving DecidableEq, Repr

def isSpace (c : Char) : Bool :=
  c == ' ' || c == '\t' || c == '\x0c' || c == '\r' || c == '\n'

def isNameStart (c : Char) : Bool := Text.isLetter c || c == '_'

def isNameChar (c : Char) : Bool :=
  isNameStart c || (48 ≤ c.toNat && c.toNat ≤ 57)

def isInsideQuotes (c : Char) : Bool := c != '"'

namespace Token

def spelling : Token → List Char
  | .number x => x.spelling
  | .text content => '"' :: content ++ ['"']
  | .name cs => cs
  | .operator op => op.symbol.toList
  | .bang => ['!']
  | .lparen => ['(']
  | .rparen => [')']

/-- The operator or parenthesis at the front of a text, the longest one. -/
def scanSymbol? : List Char → Option (Token × List Char)
  | '(' :: cs => some (.lparen, cs)
  | ')' :: cs => some (.rparen, cs)
  | '+' :: cs => some (.operator .add, cs)
  | '-' :: cs => some (.operator .subtract, cs)
  | '*' :: cs => some (.operator .multiply, cs)
  | '/' :: cs => some (.operator .divide, cs)
  | '=' :: '=' :: cs => some (.operator .equal, cs)
  | '!' :: '=' :: cs => some (.operator .notEqual, cs)
  | '!' :: cs => some (.bang, cs)
  | '<' :: '>' :: cs => some (.operator .different, cs)
  | '<' :: '=' :: cs => some (.operator .lessEqual, cs)
  | '<' :: cs => some (.operator .less, cs)
  | '>' :: '=' :: cs => some (.operator .greaterEqual, cs)
  | '>' :: cs => some (.operator .greater, cs)
  | '&' :: '&' :: cs => some (.operator .and, cs)
  | '|' :: '|' :: cs => some (.operator .or, cs)
  | _ => none

def scanText? (cs : List Char) : Option (Token × List Char) :=
  match cs.dropWhile isInsideQuotes with
  | [] => none
  | _ :: rest => some (.text (cs.takeWhile isInsideQuotes), rest)

def scan? : List Char → Option (Token × List Char)
  | [] => none
  | c :: cs =>
    if c = '"' then scanText? cs
    else if isNameStart c then
      some (.name (c :: cs.takeWhile isNameChar), cs.dropWhile isNameChar)
    else
      match Numeral.scan? (c :: cs) with
      | some (x, rest) => some (.number x, rest)
      | none => scanSymbol? (c :: cs)

end Token

namespace Power

private theorem frontSign_append (cs : List Char) :
    frontSign cs ++ cs.drop (frontSign cs).length = cs := by
  cases cs with
  | nil => rfl
  | cons c cs => by_cases h : c = '+' ∨ c = '-' <;> simp [frontSign, h]

theorem spelling_append_of_scan? {cs rest : List Char} {p : Power}
    (h : scan? cs = some (p, rest)) : p.spelling ++ rest = cs := by
  cases cs with
  | nil => cases h
  | cons mark cs =>
    simp only [scan?] at h
    split at h
    · split at h
      · cases h
      · next d ds hds =>
        simp only [Option.some.injEq, Prod.mk.injEq] at h
        obtain ⟨rfl, rfl⟩ := h
        rw [spelling, ← hds, List.append_assoc, List.takeWhile_append_dropWhile,
          List.cons_append, frontSign_append]
    · cases h

end Power

namespace Numeral

private theorem spelling_append_withPower (whole : List Char) (fraction : Option (List Char))
    (cs : List Char) :
    (withPower whole fraction cs).1.spelling ++ (withPower whole fraction cs).2
      = whole ++ fraction.elim [] ('.' :: ·) ++ cs := by
  unfold withPower
  split
  · next p rest h => simp [spelling, Power.spelling_append_of_scan? h]
  · simp [spelling]

theorem spelling_append_of_scan? {cs rest : List Char} {x : Numeral}
    (h : scan? cs = some (x, rest)) : x.spelling ++ rest = cs := by
  have hcs := List.takeWhile_append_dropWhile (p := Text.isDigit) (l := cs)
  have key (whole : List Char) (fraction : Option (List Char)) (tail : List Char)
      (h : some (withPower whole fraction tail) = some (x, rest)) :
      x.spelling ++ rest = whole ++ fraction.elim [] ('.' :: ·) ++ tail := by
    have := spelling_append_withPower whole fraction tail
    rwa [Option.some.inj h] at this
  unfold scan? at h
  split at h
  · next hw ho =>
    split at h
    · cases h
    · next d ds hds =>
      rw [key _ _ _ h, ← hcs, hw, ho]
      simp [← hds, List.takeWhile_append_dropWhile]
  · cases h
  · next hw ho =>
    rw [key _ _ _ h, ← hcs, hw, ho]
    simp [List.takeWhile_append_dropWhile]
  · next hw ho =>
    rw [key _ _ _ h, Option.elim_none, List.append_nil, ← hw]
    exact hcs

theorem spelling_ne_nil_of_scan? {cs rest : List Char} {x : Numeral}
    (h : scan? cs = some (x, rest)) : x.spelling ≠ [] := by
  have key (whole : List Char) (fraction : Option (List Char)) (tail : List Char)
      (hne : whole ≠ [] ∨ fraction ≠ none)
      (h : some (withPower whole fraction tail) = some (x, rest)) : x.spelling ≠ [] := by
    have hx : x = (withPower whole fraction tail).1 := by rw [Option.some.inj h]
    subst hx
    unfold withPower
    split <;> rcases hne with hne | hne <;> cases fraction <;> simp_all [spelling]
  unfold scan? at h
  split at h
  · split at h
    · cases h
    · exact key _ _ _ (Or.inr (by simp)) h
  · cases h
  · exact key _ _ _ (Or.inl (by simp)) h
  · exact key _ _ _ (Or.inl (by simp)) h

end Numeral

namespace Token

private theorem spelling_append_of_scanSymbol? {cs rest : List Char} {t : Token}
    (h : scanSymbol? cs = some (t, rest)) : t.spelling ++ rest = cs ∧ t.spelling ≠ [] := by
  unfold scanSymbol? at h
  split at h <;> cases h <;> exact ⟨rfl, by simp [spelling, BinaryOp.symbol]⟩

private theorem spelling_append_of_scanText? {cs rest : List Char} {t : Token}
    (h : scanText? cs = some (t, rest)) : t.spelling ++ rest = '"' :: cs ∧ t.spelling ≠ [] := by
  have hcs := List.takeWhile_append_dropWhile (p := isInsideQuotes) (l := cs)
  unfold scanText? at h
  split at h
  · cases h
  · next c tail hd =>
    simp only [Option.some.injEq, Prod.mk.injEq] at h
    obtain ⟨rfl, rfl⟩ := h
    have hc : c = '"' := by
      have := List.head?_dropWhile_not isInsideQuotes cs
      simpa [hd, isInsideQuotes] using this
    subst hc
    refine ⟨?_, by simp [spelling]⟩
    simp only [spelling, List.cons_append, List.append_assoc, List.nil_append]
    rw [← hd, hcs]

/-- A token and the rest of the text make up the text, and a token is never
empty. -/
theorem spelling_append_of_scan? {cs rest : List Char} {t : Token}
    (h : scan? cs = some (t, rest)) : t.spelling ++ rest = cs ∧ t.spelling ≠ [] := by
  cases cs with
  | nil => cases h
  | cons c cs =>
    rw [scan?] at h
    split at h
    · next hc => exact hc ▸ spelling_append_of_scanText? h
    · split at h
      · simp only [Option.some.injEq, Prod.mk.injEq] at h
        obtain ⟨rfl, rfl⟩ := h
        exact ⟨by simp [spelling, List.takeWhile_append_dropWhile], by simp [spelling]⟩
      · split at h
        · next x rest' hx =>
          simp only [Option.some.injEq, Prod.mk.injEq] at h
          obtain ⟨rfl, rfl⟩ := h
          exact ⟨Numeral.spelling_append_of_scan? hx, Numeral.spelling_ne_nil_of_scan? hx⟩
        · exact spelling_append_of_scanSymbol? h

/-- Scanning a token shortens the text. -/
theorem length_lt_of_scan? {cs rest : List Char} {t : Token}
    (h : scan? cs = some (t, rest)) : rest.length < cs.length := by
  obtain ⟨happ, hne⟩ := spelling_append_of_scan? h
  rw [← happ, List.length_append]
  have := List.length_pos_iff.mpr hne
  omega

end Token

/-- Cuts a text into tokens; `none` if some part of it is no token. -/
def tokens? : List Char → Option (List Token)
  | [] => some []
  | c :: cs =>
    if isSpace c then tokens? cs
    else
      match _h : Token.scan? (c :: cs) with
      | some (t, rest) => (tokens? rest).map (t :: ·)
      | none => none
termination_by cs => cs.length
decreasing_by
  · simp
  · exact Token.length_lt_of_scan? _h

end LineBasic
