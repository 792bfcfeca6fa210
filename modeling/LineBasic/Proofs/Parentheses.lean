import LineBasic.Proofs.Grammar
import LineBasic.Proofs.Rewriting

/-!
One pair of parentheses around the whole of a condition. The text is stripped
of it exactly when the first parenthesis is closed by the last one, and then
what is left is derived as the same tree.
-/

namespace LineBasic

/-- Whether no closing parenthesis before the last token closes the first one.
`depth` counts the open parentheses. -/
def Token.enclosed (depth : Nat) : List Token → Bool
  | [] => true
  | .lparen :: ts => enclosed (depth + 1) ts
  | .rparen :: ts => if depth = 1 ∧ ts ≠ [] then false else enclosed (depth - 1) ts
  | _ :: ts => enclosed depth ts

namespace Expr

section Enclosed

variable {level : Level} {ts : List Token} {e : Expr}

/-- Inside parentheses whatever is derived closes the parentheses that it
opens and no others. -/
theorem Derives.enclosed_append (h : Derives level ts e) {depth : Nat} (hdepth : 1 ≤ depth)
    (rest : List Token) : Token.enclosed depth (ts ++ rest) = Token.enclosed depth rest := by
  induction h generalizing depth rest with
  | number | text | «variable» => rfl
  | invoke =>
    have hne : depth ≠ 0 := Nat.ne_of_gt hdepth
    simp [Token.enclosed, hne]
  | apply _ _ ih | parens _ ih =>
    have hne : depth ≠ 0 := Nat.ne_of_gt hdepth
    have hinner := ih (Nat.le_add_left 1 depth) (.rparen :: rest)
    simpa [Token.enclosed, hne] using hinner
  | plus _ ih | minus _ ih | not _ ih => exact ih hdepth rest
  | operand _ _ ih => exact ih hdepth rest
  | @binary _ op _ right _ _ _ _ _ ihleft ihright =>
    have hleft := ihleft hdepth (.operator op :: (right ++ rest))
    have hright := ihright hdepth rest
    rw [List.append_assoc, List.cons_append, hleft]
    exact hright

/-- A parenthesis that opens what is derived is closed in it, so it encloses
nothing behind it. -/
theorem Derives.not_enclosed (h : Derives level ts e) (hhead : ts.head? = some .lparen)
    {rest : List Token} (hrest : rest ≠ []) : Token.enclosed 0 (ts ++ rest) = false := by
  induction h generalizing rest with
  | parens h _ =>
    have hinner := h.enclosed_append (Nat.le_refl 1) (.rparen :: rest)
    simpa [Token.enclosed, hrest] using hinner
  | operand _ _ ih => exact ih hhead hrest
  | @binary _ op left right _ _ _ hleft _ ihleft _ =>
    obtain ⟨t, left, rfl, _⟩ := hleft.exists_head
    rw [List.append_assoc]
    exact ihleft hhead (by simp)
  | number | text | «variable» | invoke | apply | plus | minus | not => cases hhead

/-- If the first parenthesis is closed by the last one, what stands between them
is derived as the same tree. -/
theorem Derives.of_enclosed (h : Derives level ts e) {inner : List Token}
    (hts : ts = .lparen :: (inner ++ [.rparen])) (henclosed : Token.enclosed 0 ts = true) :
    Derives .alternative inner e := by
  induction h with
  | parens h _ =>
    have heq := List.append_cancel_right (List.cons.inj hts).2
    exact heq ▸ h
  | operand _ _ ih => exact ih hts henclosed
  | @binary _ op left right _ _ _ hleft _ _ _ =>
    obtain ⟨t, left', rfl, _⟩ := hleft.exists_head
    have ht : t = .lparen := (List.cons.inj hts).1
    have hnot : Token.enclosed 0 (t :: left' ++ .operator op :: right) = false :=
      hleft.not_enclosed (by rw [ht]; rfl) (by simp)
    rw [henclosed] at hnot
    cases hnot
  | number | text | «variable» | invoke | apply | plus | minus | not => cases hts

end Enclosed

end Expr

/-- A character of a word that matters neither to literals nor to parentheses
and is no blank. -/
def IsInert (c : Char) : Prop := (c ≠ '"' ∧ c ≠ '(' ∧ c ≠ ')') ∧ Text.isBlank c = false

instance (c : Char) : Decidable (IsInert c) := inferInstanceAs (Decidable (_ ∧ _))

theorem isInert_of_isNameChar {c : Char} (h : isNameChar c = true) : IsInert c := by
  have hne (d : Char) (hd : isNameChar d = false) : c ≠ d := by
    rintro rfl
    rw [h] at hd
    cases hd
  exact ⟨⟨hne _ (by decide), hne _ (by decide), hne _ (by decide)⟩, isBlank_of_isNameChar h⟩

theorem isInert_of_isDigit {c : Char} (h : Text.isDigit c = true) : IsInert c :=
  ⟨⟨ne_of_isDigit h (by decide), ne_of_isDigit h (by decide), ne_of_isDigit h (by decide)⟩,
    Text.isBlank_of_isDigit h⟩

theorem isInert_of_mem_name {cs : List Char} (h : (Token.name cs).IsSpelled) :
    cs ≠ [] ∧ ∀ c ∈ cs, IsInert c := by
  obtain ⟨c, cs, rfl, hstart, hcs⟩ := h
  constructor
  · exact List.cons_ne_nil c cs
  · intro d hd
    apply isInert_of_isNameChar
    rcases List.mem_cons.mp hd with rfl | hd
    · exact isNameChar_of_isNameStart hstart
    · exact hcs d hd

theorem isInert_of_mem_symbol (op : BinaryOp) :
    op.symbol.toList ≠ [] ∧ ∀ c ∈ op.symbol.toList, IsInert c := by
  cases op <;> exact ⟨List.cons_ne_nil _ _, forall_mem_of_all (by decide)⟩

namespace Written

inductive Look : Token → List Char → Prop
  | lparen : Look .lparen ['(']
  | rparen : Look .rparen [')']
  | text {content : List Char} (h : ∀ c ∈ content, isInsideQuotes c = true) :
      Look (.text content) ('"' :: (content ++ ['"']))
  | inert {t : Token} {w : List Char} (ht : t ≠ .lparen ∧ t ≠ .rparen) (hne : w ≠ [])
      (hw : ∀ c ∈ w, IsInert c) : Look t w

theorem look (w : Written) : Look w.token w.word := by
  obtain ⟨t, word, hspelled, hwritten⟩ := w
  cases hwritten with
  | spelled =>
    cases t with
    | number x =>
      obtain ⟨c, cs, hcs, _⟩ := Token.exists_spelling_of_numeral hspelled
      have hinert : ∀ c ∈ x.spelling, IsInert c :=
        hspelled.forall_mem (fun c hc => isInert_of_isDigit hc) (forall_mem_of_all (by decide))
      exact .inert (by simp) (by simp [Token.spelling, hcs]) hinert
    | text content => exact .text hspelled
    | name cs =>
      obtain ⟨hne, hcs⟩ := isInert_of_mem_name hspelled
      exact .inert (by simp) hne hcs
    | operator op =>
      obtain ⟨hne, hcs⟩ := isInert_of_mem_symbol op
      exact .inert (by simp) hne hcs
    | bang =>
      have hcs : ∀ c ∈ ['!'], IsInert c := List.forall_mem_singleton.mpr (by decide)
      exact .inert (by simp) (by simp [Token.spelling]) hcs
    | lparen => exact .lparen
    | rparen => exact .rparen
  | word hname hword =>
    obtain ⟨hne, hcs⟩ := isInert_of_mem_name hname
    refine .inert ?_ hne hcs
    have hsymbol := logicalWord?_cases hword
    constructor
    · rintro rfl
      revert hsymbol
      decide
    · rintro rfl
      revert hsymbol
      decide
  | equal =>
    have hcs : ∀ c ∈ ['='], IsInert c := List.forall_mem_singleton.mpr (by decide)
    exact .inert (by simp) (by simp) hcs

end Written

section IsEnclosed

open Condition

variable {depth : Nat} {cs rest : List Char}

theorem isEnclosed_inert (hcs : ∀ c ∈ cs, IsInert c) :
    isEnclosed depth false (cs ++ rest) = isEnclosed depth false rest := by
  induction cs with
  | nil => rfl
  | cons c cs ih =>
    obtain ⟨⟨hquote, hopen, hclose⟩, _⟩ := hcs c List.mem_cons_self
    have htail := ih fun d hd => hcs d (List.mem_cons_of_mem _ hd)
    simp [isEnclosed, hquote, hopen, hclose, htail]

theorem isEnclosed_space : isEnclosed depth false (' ' :: cs) = isEnclosed depth false cs := by
  simp [isEnclosed]

/-- Whatever stands inside a literal does not matter. -/
theorem isEnclosed_quoted (hcs : ∀ c ∈ cs, isInsideQuotes c = true) :
    isEnclosed depth false ('"' :: (cs ++ '"' :: rest)) = isEnclosed depth false rest := by
  have hinside : isEnclosed depth true (cs ++ '"' :: rest) = isEnclosed depth false rest := by
    induction cs with
    | nil => simp [isEnclosed]
    | cons c cs ih =>
      have hquote : c ≠ '"' := by simpa [isInsideQuotes] using hcs c List.mem_cons_self
      have htail := ih fun d hd => hcs d (List.mem_cons_of_mem _ hd)
      simp [isEnclosed, hquote, htail]
  simp [isEnclosed, hinside]

/-- The parentheses among tokens are those of their text, word by word. -/
theorem isEnclosed_word (w : Written) {ts : List Token} (hempty : rest = [] ↔ ts = [])
    (hrest : ∀ depth, isEnclosed depth false rest = Token.enclosed depth ts) (depth : Nat) :
    isEnclosed depth false (w.word ++ rest) = Token.enclosed depth (w.token :: ts) := by
  have hlook := w.look
  generalize w.token = t at hlook
  generalize w.word = word at hlook
  cases hlook with
  | lparen => simp [isEnclosed, Token.enclosed, hrest]
  | rparen => simp [isEnclosed, Token.enclosed, hrest, hempty]
  | text h =>
    rw [List.cons_append, List.append_assoc, List.singleton_append, isEnclosed_quoted h, hrest]
    rfl
  | inert ht _ hw =>
    rw [isEnclosed_inert hw, hrest]
    cases t with
    | lparen => exact absurd rfl ht.1
    | rparen => exact absurd rfl ht.2
    | _ => rfl

/-- In the text of written tokens the parentheses are those among the tokens. -/
theorem isEnclosed_behind (ws : List Written) (depth : Nat) :
    isEnclosed depth false (behind (ws.map Written.word)) =
      Token.enclosed depth (ws.map Written.token) := by
  induction ws generalizing depth with
  | nil => rfl
  | cons w ws ih =>
    have hempty : behind (ws.map Written.word) = [] ↔ ws.map Written.token = [] := by
      cases ws with
      | nil => simp [behind]
      | cons w ws => simp [behind_cons]
    rw [List.map_cons, List.map_cons, behind_cons, isEnclosed_space]
    exact isEnclosed_word w hempty ih depth

end IsEnclosed

namespace Written

theorem hasEdges_word (w : Written) : Text.HasEdges w.word := by
  have hlook := w.look
  generalize w.token = t at hlook
  generalize w.word = word at hlook
  cases hlook with
  | lparen => exact ⟨⟨'(', [], rfl, by decide⟩, [], '(', rfl, by decide⟩
  | rparen => exact ⟨⟨')', [], rfl, by decide⟩, [], ')', rfl, by decide⟩
  | @text content _ =>
    exact ⟨⟨'"', content ++ ['"'], rfl, by decide⟩, '"' :: content, '"', rfl, by decide⟩
  | inert _ hne hw =>
    constructor
    · obtain ⟨c, rest, rfl⟩ := List.exists_cons_of_ne_nil hne
      exact ⟨c, rest, rfl, (hw c (by simp)).2⟩
    · obtain ⟨front, c, rfl⟩ : ∃ front c, word = front ++ [c] :=
        ⟨word.dropLast, word.getLast hne, (List.dropLast_concat_getLast hne).symm⟩
      exact ⟨front, c, rfl, (hw c (by simp)).2⟩

/-- The text of written tokens has no blanks at its ends. -/
theorem hasEdges_spaced {ws : List Written} (hne : ws ≠ []) :
    Text.HasEdges (spaced (ws.map word)) := by
  constructor
  · obtain ⟨w, ws, rfl⟩ := List.exists_cons_of_ne_nil hne
    obtain ⟨c, rest, hw, hc⟩ := w.hasEdges_word.first
    exact ⟨c, rest ++ behind (ws.map word), by simp [spaced, hw], hc⟩
  · obtain ⟨front, w, rfl⟩ : ∃ front w, ws = front ++ [w] :=
      ⟨ws.dropLast, ws.getLast hne, (List.dropLast_concat_getLast hne).symm⟩
    obtain ⟨start, c, hw, hc⟩ := w.hasEdges_word.last
    cases front with
    | nil => exact ⟨start, c, by simp [spaced, behind, hw], hc⟩
    | cons v front =>
      exact ⟨v.word ++ (behind (front.map word) ++ ' ' :: start), c,
        by simp [spaced, behind, hw], hc⟩

theorem token_of_head_word {w : Written} (h : w.word.head? = some '(') :
    w.token = .lparen ∧ w.word = ['('] := by
  have hlook := w.look
  generalize w.token = t at hlook ⊢
  generalize w.word = word at hlook h ⊢
  cases hlook with
  | lparen => exact ⟨rfl, rfl⟩
  | rparen => cases h
  | text _ => cases h
  | inert _ _ hw => exact absurd rfl (hw '(' (List.mem_of_head? h)).1.2.1

theorem token_of_last_word {w : Written} (h : w.word.getLast? = some ')') :
    w.token = .rparen ∧ w.word = [')'] := by
  have hlook := w.look
  generalize w.token = t at hlook ⊢
  generalize w.word = word at hlook h ⊢
  cases hlook with
  | lparen => cases h
  | rparen => exact ⟨rfl, rfl⟩
  | @text content _ =>
    rw [← List.cons_append, List.getLast?_concat] at h
    cases h
  | inert _ _ hw => exact absurd rfl (hw ')' (List.mem_of_getLast? h)).1.2.2

/-- A text that starts with an opening parenthesis and ends with a closing one
is the text of two such tokens and of what stands between them. -/
theorem exists_inside {ws : List Written}
    (hhead : (spaced (ws.map word)).head? = some '(')
    (hlast : (spaced (ws.map word)).getLast? = some ')') :
    ∃ opening inner closing, ws = opening :: (inner ++ [closing]) ∧
      (opening.token = .lparen ∧ opening.word = ['(']) ∧
      closing.token = .rparen ∧ closing.word = [')'] := by
  cases ws with
  | nil => cases hhead
  | cons opening ws =>
    have hopening : opening.token = .lparen ∧ opening.word = ['('] := by
      obtain ⟨c, rest, hw, _⟩ := opening.hasEdges_word.first
      refine token_of_head_word ?_
      rw [List.map_cons, spaced, hw] at hhead
      rw [hw]
      exact hhead
    rcases List.eq_nil_or_concat ws with rfl | ⟨inner, closing, rfl⟩
    · simp [spaced, behind, hopening] at hlast
    · rw [List.concat_eq_append] at hlast ⊢
      refine ⟨opening, inner, closing, rfl, hopening, token_of_last_word ?_⟩
      obtain ⟨front, c, hw, _⟩ := closing.hasEdges_word.last
      have htext : spaced ((opening :: (inner ++ [closing])).map word) =
          opening.word ++ behind (inner.map word) ++ ' ' :: front ++ [c] := by
        simp [spaced, behind, hw]
      rw [htext, List.getLast?_concat] at hlast
      rw [hw, List.getLast?_concat]
      exact hlast

/-- Stripping the text of a condition of parentheses around the whole leaves
the text of a condition with the same tree. -/
theorem stripParens_spaced {ws : List Written} {e : Expr}
    (h : Expr.Derives .alternative (ws.map token) e) :
    ∃ ws' : List Written, (∀ w ∈ ws', w ∈ ws) ∧ Expr.Derives .alternative (ws'.map token) e ∧
      Condition.stripParens (spaced (ws.map word)) = spaced (ws'.map word) := by
  unfold Condition.stripParens
  split
  · next hcond =>
    obtain ⟨hhead, hlast, henclosed⟩ := hcond
    obtain ⟨opening, inner, closing, rfl, hopening, hclosing⟩ := exists_inside hhead hlast
    have htokens : (opening :: (inner ++ [closing])).map token =
        .lparen :: (inner.map token ++ [.rparen]) := by simp [hopening, hclosing]
    rw [← isEnclosed_space, cons_spaced (by simp), isEnclosed_behind] at henclosed
    have hinner := h.of_enclosed htokens henclosed
    have hne : inner ≠ [] := by
      rintro rfl
      exact absurd hinner.length_pos (by simp)
    refine ⟨inner, fun w hw => by simp [hw], hinner, ?_⟩
    have htext : spaced ((opening :: (inner ++ [closing])).map word) =
        '(' :: ((' ' :: (spaced (inner.map word) ++ [' '])) ++ [')']) := by
      have hspaced : ' ' :: spaced (inner.map word) = behind (inner.map word) :=
        cons_spaced (by simpa using hne)
      rw [List.map_cons, spaced, List.map_append, behind_append, ← hspaced, hopening.2]
      simp [behind, hclosing]
    rw [htext, List.tail_cons, List.dropLast_concat]
    exact (hasEdges_spaced hne).trim_spaces
  · exact ⟨ws, fun w hw => hw, h, rfl⟩

end Written

end LineBasic
