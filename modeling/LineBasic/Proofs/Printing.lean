import LineBasic.Proofs.Grammar
import LineBasic.Proofs.Lexemes
import Mathlib.Data.List.Chain

/-!
Expressions printed as tokens and texts. `Expr.printed` puts operands between
parentheses as a style asks for it, and any style that does so wherever the
levels of the operators require it is read back as the same expression. The
style of `needsParens` asks for no more than that, and no list of tokens that
is read as the expression is shorter.

Between the tokens of a text there may be blanks, or none: what is derived
never holds two tokens of which one would go on with the other.
-/

namespace LineBasic

theorem Level.depth_injective {level level' : Level} (h : level.depth = level'.depth) :
    level = level' := by
  cases level <;> cases level' <;> first | rfl | cases h

namespace Token

def Precedes (t t' : Token) : Prop := StopsAt t.goesOnWith t'.spelling

def Closes : Token → Prop
  | .number _ | .text _ | .name _ | .rparen => True
  | _ => False

/-- Whether a token can stand directly behind such a token. -/
def Separates : Token → Prop
  | .operator _ | .lparen | .rparen => True
  | _ => False

inductive Meets : Token → Token → Prop
  | closed {t t' : Token} (h : t.Closes) (h' : t'.Separates) : Meets t t'
  | opened {t t' : Token} {level : Level} (h : t = .bang ∨ ∃ op, t = .operator op)
      (h' : t'.Opens level) : Meets t t'
  | lparen (t : Token) : Meets .lparen t

section Neighbours

variable {t t' : Token}

theorem IsSpelled.spelling_ne_nil (h : t.IsSpelled) : t.spelling ≠ [] :=
  (spelling_append_of_scan? (isSpelled_iff_scan?.mp h)).2

theorem Closes.precedes (h : t.Closes) (h' : t'.Separates) : t.Precedes t' := by
  intro c hc
  cases t with
  | number | name =>
    cases t' with
    | operator op => cases op <;> cases hc <;> rfl
    | lparen | rparen => cases hc; rfl
    | _ => exact absurd h' id
  | text | rparen => rfl
  | _ => exact absurd h id

/-- What opens an operand goes on with no operator in front of it. -/
theorem head_of_opens {level : Level} (h : t'.Opens level) (hspelled : t'.IsSpelled) {c : Char}
    (hc : t'.spelling.head? = some c) : c ≠ '=' ∧ c ≠ '>' := by
  cases t' with
  | number x =>
    obtain ⟨d, ds, hds, hd⟩ := exists_spelling_of_numeral hspelled
    rw [spelling, hds] at hc
    cases hc
    rcases hd with hd | rfl
    · exact ⟨ne_of_isDigit hd (by decide), ne_of_isDigit hd (by decide)⟩
    · decide
  | name cs =>
    obtain ⟨d, ds, rfl, hd, _⟩ := hspelled
    cases hc
    constructor <;> rintro rfl <;> exact absurd hd (by decide)
  | operator op =>
    have hop := h.1
    cases op <;> cases hop <;> cases hc <;> decide
  | rparen => exact absurd h id
  | _ => cases hc; decide

theorem precedes_of_opens {level : Level} (h : t'.Opens level) (hspelled : t'.IsSpelled)
    (ht : t = .bang ∨ ∃ op, t = .operator op) : t.Precedes t' := by
  intro c hc
  have hhead := head_of_opens h hspelled hc
  rcases ht with rfl | ⟨op, rfl⟩ <;> simp [goesOnWith, hhead]

theorem Meets.precedes (h : t.Meets t') (hspelled : t'.IsSpelled) : t.Precedes t' := by
  cases h with
  | closed h h' => exact h.precedes h'
  | opened h h' => exact precedes_of_opens h' hspelled h
  | lparen => exact fun _ _ => rfl

end Neighbours

end Token

namespace Expr

section Derived

variable {level : Level} {ts : List Token} {e : Expr}

theorem Derives.exists_last (h : Derives level ts e) :
    ∃ front t, ts = front ++ [t] ∧ t.Closes := by
  induction h with
  | number | text | «variable» => exact ⟨[], _, rfl, trivial⟩
  | invoke cs => exact ⟨[.name cs, .lparen], .rparen, rfl, trivial⟩
  | @apply cs ts _ _ _ => exact ⟨.name cs :: .lparen :: ts, .rparen, rfl, trivial⟩
  | @parens ts _ _ _ => exact ⟨.lparen :: ts, .rparen, rfl, trivial⟩
  | plus _ ih | minus _ ih | not _ ih =>
    obtain ⟨front, t, rfl, ht⟩ := ih
    exact ⟨_ :: front, t, rfl, ht⟩
  | operand _ _ ih => exact ih
  | @binary _ op left _ _ _ _ _ _ _ ih =>
    obtain ⟨front, t, rfl, ht⟩ := ih
    exact ⟨left ++ .operator op :: front, t, by simp, ht⟩

/-- Closing a parenthesis behind what is derived. -/
theorem Derives.isChain_rparen (h : Derives level ts e) (hts : ts.IsChain Token.Meets) :
    (ts ++ [Token.rparen]).IsChain Token.Meets := by
  obtain ⟨front, t, rfl, ht⟩ := h.exists_last
  have hmeets : t.Meets .rparen := .closed ht trivial
  exact List.isChain_append.mpr ⟨hts, .singleton _, by simpa using hmeets⟩

/-- An operator in front of what is derived. -/
theorem Derives.isChain_cons (h : Derives level ts e) (hts : ts.IsChain Token.Meets) {t : Token}
    (ht : t = .bang ∨ ∃ op, t = .operator op) : (t :: ts).IsChain Token.Meets := by
  obtain ⟨t', rest, rfl, hopens⟩ := h.exists_head
  exact .cons_cons (.opened ht hopens) hts

theorem isChain_lparen (hts : ts.IsChain Token.Meets) :
    (Token.lparen :: ts).IsChain Token.Meets := by
  cases ts with
  | nil => exact .singleton _
  | cons t ts => exact .cons_cons (.lparen t) hts

/-- How the tokens of what is derived stand side by side. -/
theorem Derives.isChain_meets (h : Derives level ts e) : ts.IsChain Token.Meets := by
  have hcall (cs : List Char) : (Token.name cs).Meets .lparen := .closed trivial trivial
  induction h with
  | number | text | «variable» => exact .singleton _
  | invoke cs => exact .cons_cons (hcall cs) (isChain_lparen (.singleton _))
  | apply cs h ih => exact .cons_cons (hcall cs) (isChain_lparen (h.isChain_rparen ih))
  | parens h ih => exact isChain_lparen (h.isChain_rparen ih)
  | plus h ih | minus h ih => exact h.isChain_cons ih (.inr ⟨_, rfl⟩)
  | not h ih => exact h.isChain_cons ih (.inl rfl)
  | operand _ _ ih => exact ih
  | @binary _ op _ _ _ _ _ hleft hright ihleft ihright =>
    have hbehind := hright.isChain_cons ihright (.inr ⟨op, rfl⟩)
    obtain ⟨front, t, rfl, ht⟩ := hleft.exists_last
    have hmeets : t.Meets (.operator op) := .closed ht trivial
    exact List.isChain_append.mpr ⟨ihleft, hbehind, by simpa using hmeets⟩

/-- The tokens of what is derived may follow each other directly. -/
theorem Derives.isChain (h : Derives level ts e) (hts : ∀ t ∈ ts, t.IsSpelled) :
    ts.IsChain Token.Precedes :=
  h.isChain_meets.imp_of_mem_imp fun _ t' _ ht' hmeets => hmeets.precedes (hts t' ht')

end Derived

end Expr

inductive Layout : List Token → List Char → Prop
  | nil {blanks : List Char} (h : ∀ c ∈ blanks, isSpace c = true) : Layout [] blanks
  | cons {blanks rest : List Char} {ts : List Token} (t : Token)
      (h : ∀ c ∈ blanks, isSpace c = true) (hrest : Layout ts rest) :
      Layout (t :: ts) (blanks ++ (t.spelling ++ rest))

namespace Layout

variable {ts : List Token} {cs : List Char}

/-- The tokens one directly behind the other. -/
theorem flatMap_spelling (ts : List Token) : Layout ts (ts.flatMap Token.spelling) := by
  induction ts with
  | nil => exact .nil (by simp)
  | cons t ts ih =>
    have hblanks : ∀ c ∈ ([] : List Char), isSpace c = true := by simp
    exact .cons t hblanks ih

theorem tokens?_blanks {blanks : List Char} (h : ∀ c ∈ blanks, isSpace c = true)
    (rest : List Char) : LineBasic.tokens? (blanks ++ rest) = LineBasic.tokens? rest := by
  induction blanks with
  | nil => rfl
  | cons c blanks ih =>
    rw [List.cons_append, LineBasic.tokens?, if_pos (h c List.mem_cons_self)]
    exact ih fun d hd => h d (List.mem_cons_of_mem _ hd)

/-- Neither a blank nor the next token goes on with a token. -/
theorem stopsAt {t : Token} (h : Layout ts cs) (hts : ∀ t ∈ ts, t.IsSpelled)
    (hchain : (t :: ts).IsChain Token.Precedes) : StopsAt t.goesOnWith cs := by
  intro c hc
  cases h with
  | nil hblanks => exact t.goesOnWith_of_isSpace (hblanks c (List.mem_of_mem_head? hc))
  | @cons blanks rest ts t' hblanks _ =>
    cases blanks with
    | cons d blanks =>
      cases hc
      exact t.goesOnWith_of_isSpace (hblanks c List.mem_cons_self)
    | nil =>
      obtain ⟨d, ds, hds⟩ :=
        List.exists_cons_of_ne_nil (hts t' List.mem_cons_self).spelling_ne_nil
      obtain rfl : d = c := by simpa [hds] using hc
      exact (List.isChain_cons_cons.mp hchain).1 d (by rw [hds]; rfl)

/-- A text is cut into the tokens that it is made of, if they may follow each
other directly. -/
theorem tokens? (h : Layout ts cs) (hts : ∀ t ∈ ts, t.IsSpelled)
    (hchain : ts.IsChain Token.Precedes) : LineBasic.tokens? cs = some ts := by
  induction h with
  | nil hblanks =>
    have hcut := tokens?_blanks hblanks []
    rw [List.append_nil] at hcut
    rw [hcut, LineBasic.tokens?]
  | @cons _ rest ts t hblanks hrest ih =>
    have htail : ∀ t' ∈ ts, t'.IsSpelled := fun t' ht' => hts t' (List.mem_cons_of_mem _ ht')
    have hstops := hrest.stopsAt htail hchain
    rw [tokens?_blanks hblanks, tokens?_spelling_append (hts t List.mem_cons_self) hstops,
      ih htail hchain.tail]
    rfl

/-- A text of derived tokens is parsed as what is derived from them. -/
theorem parse? {level : Level} {e : Expr} (h : Layout ts cs) (hderives : Expr.Derives level ts e)
    (hts : ∀ t ∈ ts, t.IsSpelled) : Expr.parse? level cs = some e := by
  rw [Expr.parse?, h.tokens? hts (hderives.isChain hts)]
  exact Expr.ofTokens?_eq_some_iff.mpr hderives

end Layout

namespace Expr

def level : Expr → Level
  | .unary .not _ => .negation
  | .unary _ _ => .sign
  | .binary op _ _ => op.operatorClass.level
  | _ => .atom

def enclose (ts : List Token) : List Token := .lparen :: (ts ++ [.rparen])

abbrev Style := Level → Expr → Bool

def Style.operand (style : Style) (level : Level) (e : Expr) (ts : List Token) : List Token :=
  if style level e then enclose ts else ts

/-- The tokens of an expression. The left operand of a binary operator stands
at the level of the operator's class and the right one at the next level. -/
def printed (style : Style) : Expr → List Token
  | .number x => [.number x]
  | .text s => [.text s.toList]
  | .variable name => [.name name.toList]
  | .invoke function => [.name function.toList, .lparen, .rparen]
  | .apply function e =>
    .name function.toList :: .lparen :: (style.operand .sum e (e.printed style) ++ [.rparen])
  | .unary .not e => .bang :: style.operand .negation e (e.printed style)
  | .unary .plus e => .operator .add :: style.operand .sign e (e.printed style)
  | .unary .minus e => .operator .subtract :: style.operand .sign e (e.printed style)
  | .binary op a b =>
    style.operand op.operatorClass.level a (a.printed style) ++
      .operator op :: style.operand op.operatorClass.level.tighter b (b.printed style)

/-- The style with the parentheses that the levels require and no others. -/
def needsParens : Style := fun level e => decide (e.level.depth < level.depth)

def allParens : Style := fun _ _ => true

/-- Whether a style has the parentheses that the levels require. -/
def Style.IsSufficient (style : Style) : Prop :=
  ∀ level e, needsParens level e = true → style level e = true

def IsUpperName (name : String) : Prop :=
  (Token.name name.toList).IsSpelled ∧ ∀ c ∈ name.toList, ¬ (97 ≤ c.toNat ∧ c.toNat ≤ 122)

/-- Whether an expression can be written down: its numerals are spelled as
numerals, its texts hold no double quote, and its names are in upper case. -/
def IsPrintable : Expr → Prop
  | .number x => x.IsSpelled
  | .text s => ∀ c ∈ s.toList, isInsideQuotes c = true
  | .variable name | .invoke name => IsUpperName name
  | .apply function e => IsUpperName function ∧ e.IsPrintable
  | .unary _ e => e.IsPrintable
  | .binary _ a b => a.IsPrintable ∧ b.IsPrintable

theorem treeName_of_isUpperName {name : String} (h : IsUpperName name) :
    treeName name.toList = name := by
  obtain ⟨⟨c, cs, hname, hstart, hcs⟩, hupper⟩ := h
  have hself : ∀ d ∈ name.toList, Text.upperChar d = [d] := by
    intro d hd
    have hchar : isNameChar d = true := by
      rw [hname] at hd
      rcases List.mem_cons.mp hd with rfl | hd
      · exact isNameChar_of_isNameStart hstart
      · exact hcs d hd
    have hrange := isNameChar_iff.mp hchar
    have hascii : d.toNat < 128 := by omega
    simp only [Text.upperChar, hascii, hupper d hd, if_true, if_false]
  have hupperText : Text.upper name.toList = name.toList := by
    rw [Text.upper, List.flatMap_congr hself, List.flatMap_singleton']
  rw [treeName, hupperText, String.ofList_toList]

section Printed

variable {style : Style} {level : Level} {ts : List Token} {e : Expr}

theorem forall_mem_operand {P : Token → Prop} (hl : P .lparen) (hr : P .rparen)
    (h : ∀ t ∈ ts, P t) : ∀ t ∈ style.operand level e ts, P t := by
  intro t ht
  unfold Style.operand at ht
  split at ht
  · simp only [enclose, List.mem_cons, List.mem_append, List.not_mem_nil, or_false] at ht
    rcases ht with rfl | ht | rfl
    · exact hl
    · exact h t ht
    · exact hr
  · exact h t ht

/-- What is printed is spelled. -/
theorem IsPrintable.isSpelled (h : e.IsPrintable) : ∀ t ∈ e.printed style, t.IsSpelled := by
  have hoperand {level : Level} {e : Expr} (ih : ∀ t ∈ e.printed style, t.IsSpelled) :
      ∀ t ∈ style.operand level e (e.printed style), t.IsSpelled :=
    forall_mem_operand trivial trivial ih
  induction e with
  | number x | text s => exact List.forall_mem_singleton.mpr h
  | «variable» name => exact List.forall_mem_singleton.mpr h.1
  | invoke function =>
    exact List.forall_mem_cons.mpr ⟨h.1, List.forall_mem_cons.mpr
      ⟨trivial, List.forall_mem_singleton.mpr trivial⟩⟩
  | apply function e ih =>
    intro t ht
    simp only [printed, List.mem_cons, List.mem_append, List.not_mem_nil, or_false] at ht
    rcases ht with rfl | rfl | ht | rfl
    · exact h.1.1
    · trivial
    · exact hoperand (ih h.2) t ht
    · trivial
  | unary op e ih =>
    intro t ht
    cases op <;> rcases List.mem_cons.mp ht with rfl | ht <;>
      first | trivial | exact hoperand (ih h) t ht
  | binary op a b iha ihb =>
    intro t ht
    simp only [printed, List.mem_append, List.mem_cons] at ht
    rcases ht with ht | rfl | ht
    · exact hoperand (iha h.1) t ht
    · trivial
    · exact hoperand (ihb h.2) t ht

/-- What is derived at a level is an operand of every looser level. -/
theorem Derives.loosen {level' : Level} (h : Derives level ts e)
    (hle : level'.depth ≤ level.depth) : Derives level' ts e := by
  obtain ⟨n, hn⟩ := Nat.exists_eq_add_of_le hle
  induction n generalizing level' with
  | zero =>
    have heq : level' = level := Level.depth_injective (by omega)
    exact heq ▸ h
  | succ n ih =>
    have hatom : level' ≠ .atom := by
      rintro rfl
      have hseven : Level.atom.depth = 7 := rfl
      have hdepth := level.depth_le
      omega
    have hdepth := Level.depth_tighter hatom
    exact .operand hatom (ih (by omega) (by omega))

/-- An operand is derived where it stands, with the parentheses that it has. -/
theorem derives_operand (hstyle : style.IsSufficient) (h : Derives e.level ts e) (level : Level) :
    Derives level (style.operand level e ts) e := by
  unfold Style.operand
  split
  · have hatom : Derives .atom (enclose ts) e := .parens (h.loosen (Nat.zero_le _))
    exact hatom.loosen level.depth_le
  · next hbare =>
    refine h.loosen (Nat.le_of_not_lt fun hlt => hbare ?_)
    exact hstyle level e (decide_eq_true hlt)

/-- What is printed is derived at the level of the expression. -/
theorem derives_printed (hstyle : style.IsSufficient) (h : e.IsPrintable) :
    Derives e.level (e.printed style) e := by
  induction e with
  | number x => exact .number x
  | text s =>
    have htext := Derives.text s.toList
    rwa [String.ofList_toList] at htext
  | «variable» name =>
    have hname := Derives.variable name.toList
    rwa [treeName_of_isUpperName h] at hname
  | invoke function =>
    have hcall := Derives.invoke function.toList
    rwa [treeName_of_isUpperName h] at hcall
  | apply function e ih =>
    have hcall := Derives.apply function.toList (derives_operand hstyle (ih h.2) .sum)
    rwa [treeName_of_isUpperName h.1] at hcall
  | unary op e ih =>
    cases op with
    | plus => exact .plus (derives_operand hstyle (ih h) .sign)
    | minus => exact .minus (derives_operand hstyle (ih h) .sign)
    | not => exact .not (derives_operand hstyle (ih h) .negation)
  | binary op a b iha ihb =>
    exact .binary op.level_operatorClass.symm (derives_operand hstyle (iha h.1) _)
      (derives_operand hstyle (ihb h.2) _)

end Printed

section Shortest

variable {level : Level} {ts : List Token} {e : Expr}

/-- The operand in the style with no more parentheses than are required. -/
def shortest (level : Level) (e : Expr) : List Token :=
  needsParens.operand level e (e.printed needsParens)

theorem shortest_of_le (h : level.depth ≤ e.level.depth) :
    e.shortest level = e.printed needsParens := by
  have hbare : needsParens level e = false := decide_eq_false (Nat.not_lt.mpr h)
  simp [shortest, Style.operand, hbare]

/-- At a tighter level an operand has no fewer parentheses. -/
theorem length_shortest_mono {level' : Level} (h : level.depth ≤ level'.depth) :
    (e.shortest level).length ≤ (e.shortest level').length := by
  by_cases hle : level'.depth ≤ e.level.depth
  · rw [shortest_of_le hle, shortest_of_le (Nat.le_trans h hle)]
  · have hneeds : needsParens level' e = true := decide_eq_true (Nat.lt_of_not_le hle)
    unfold shortest Style.operand
    rw [hneeds]
    split
    · exact Nat.le_refl _
    · simp only [enclose, if_true, List.length_cons, List.length_append]
      omega

/-- No tokens that are read as an expression are fewer than those printed with
no more parentheses than are required. -/
theorem Derives.length_shortest_le (h : Derives level ts e) :
    (e.shortest level).length ≤ ts.length := by
  induction h with
  | number | text | «variable» | invoke => exact Nat.le_refl _
  | @apply cs ts e h ih =>
    have hprinted : (Expr.apply (treeName cs) e).shortest .atom =
        .name (treeName cs).toList :: .lparen :: (e.shortest .sum ++ [.rparen]) := rfl
    simp only [hprinted, List.length_cons, List.length_append]
    omega
  | @parens ts e h ih =>
    -- Within the parentheses nothing is required.
    rw [shortest_of_le (Nat.zero_le _)] at ih
    have hbare : (e.shortest .atom).length ≤ (e.printed needsParens).length + 2 := by
      unfold shortest Style.operand
      split <;> simp [enclose]
    simp only [List.length_cons, List.length_append, List.length_nil]
    omega
  | plus h ih => exact Nat.succ_le_succ ih
  | minus h ih => exact Nat.succ_le_succ ih
  | not h ih => exact Nat.succ_le_succ ih
  | operand hlevel h ih =>
    refine Nat.le_trans (length_shortest_mono ?_) ih
    rw [Level.depth_tighter hlevel]
    exact Nat.le_succ _
  | @binary level op left right a b hop hleft hright ihleft ihright =>
    rw [← op.level_operatorClass] at hop
    subst hop
    have hprinted : (Expr.binary op a b).shortest op.operatorClass.level =
        a.shortest op.operatorClass.level ++
          .operator op :: b.shortest op.operatorClass.level.tighter :=
      shortest_of_le (Nat.le_refl _)
    simp only [hprinted, List.length_append, List.length_cons]
    omega

end Shortest

/-- An expression is read back from its text: from the one with no more
parentheses than the levels require, which no fewer tokens can replace, and
from the one with parentheses around every operand, which is an expression once
it is itself put between parentheses. -/
theorem parse_printed {e : Expr} (h : e.IsPrintable) :
    (∀ cs, Layout (e.printed needsParens) cs → ofCondition? cs = some e) ∧
    (∀ ts, Derives .alternative ts e → (e.printed needsParens).length ≤ ts.length) ∧
    (∀ cs, Layout (e.printed allParens) cs → ofCondition? cs = some e) ∧
    ∀ cs, Layout (enclose (e.printed allParens)) cs →
      ofCondition? cs = some e ∧ ofExpression? cs = some e := by
  have hneeds : needsParens.IsSufficient := fun _ _ h => h
  have hall : allParens.IsSufficient := fun _ _ _ => rfl
  have hclosed : Derives .atom (enclose (e.printed allParens)) e :=
    .parens ((derives_printed hall h).loosen (Nat.zero_le _))
  have hspelled : ∀ t ∈ allParens.operand .atom e (e.printed allParens), t.IsSpelled :=
    forall_mem_operand trivial trivial h.isSpelled
  refine ⟨?_, ?_, ?_, ?_⟩
  · intro cs hcs
    exact hcs.parse? ((derives_printed hneeds h).loosen (Nat.zero_le _)) h.isSpelled
  · intro ts hts
    have hwhole : e.shortest .alternative = e.printed needsParens :=
      shortest_of_le (Nat.zero_le _)
    exact hwhole ▸ hts.length_shortest_le
  · intro cs hcs
    exact hcs.parse? ((derives_printed hall h).loosen (Nat.zero_le _)) h.isSpelled
  · intro cs hcs
    constructor
    · exact hcs.parse? (hclosed.loosen (Nat.zero_le _)) hspelled
    · exact hcs.parse? (hclosed.loosen (by decide)) hspelled

/-- The right operand of a difference and the left one of a product need
parentheses; the negated comparison and the signed call need none. -/
theorem parse_printed_at_negation :
    let one : Expr := .number ⟨['1'], none, none⟩
    let difference : Expr := .binary .subtract (.variable "A") (.binary .subtract one one)
    let product : Expr := .binary .multiply difference (.unary .minus (.apply "F" one))
    let e : Expr := .binary .and (.unary .not (.binary .less product (.variable "B")))
      (.binary .equal (.invoke "G") (.text "x"))
    ofCondition? "!(A-(1-1))*-F(1)<B&&G()==\"x\"".toList = some e ∧
    ofExpression? "((!((((A)-((1)-(1)))*(-(F((1)))))<(B)))&&((G())==(\"x\")))".toList = some e := by
  intro one difference product e
  have hone : one.IsPrintable :=
    (Token.isSpelled_iff_scan? (t := .number ⟨['1'], none, none⟩)).mpr rfl
  have hletters : ∀ name ∈ ["A", "B", "F", "G"], IsUpperName name := by
    have hscan : ∀ name ∈ ["A", "B", "F", "G"],
        Token.scan? name.toList = some (.name name.toList, []) := by decide +kernel
    have hupper : ∀ name ∈ ["A", "B", "F", "G"],
        (name.toList.all fun c => decide ¬ (97 ≤ c.toNat ∧ c.toNat ≤ 122)) = true := by
      decide +kernel
    refine fun name h => ⟨Token.isSpelled_iff_scan?.mpr (hscan name h), fun c hc => ?_⟩
    exact of_decide_eq_true (List.all_eq_true.mp (hupper name h) c hc)
  have hproduct : product.IsPrintable :=
    ⟨⟨hletters "A" (by simp), hone, hone⟩, hletters "F" (by simp), hone⟩
  have htext : ∀ c ∈ "x".toList, isInsideQuotes c = true :=
    List.all_eq_true.mp (by decide +kernel)
  have he : e.IsPrintable := ⟨⟨hproduct, hletters "B" (by simp)⟩, hletters "G" (by simp), htext⟩
  obtain ⟨hneeds, -, -, hclosed⟩ := parse_printed he
  have hfewest : (e.printed needsParens).flatMap Token.spelling =
      "!(A-(1-1))*-F(1)<B&&G()==\"x\"".toList := by decide
  have hall : (enclose (e.printed allParens)).flatMap Token.spelling =
      "((!((((A)-((1)-(1)))*(-(F((1)))))<(B)))&&((G())==(\"x\")))".toList := by decide
  rw [← hfewest, ← hall]
  exact ⟨hneeds _ (Layout.flatMap_spelling _), (hclosed _ (Layout.flatMap_spelling _)).2⟩

end Expr

end LineBasic
