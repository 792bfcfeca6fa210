import LineBasic.Proofs.Grammar
import LineBasic.Proofs.Lexemes
import Mathlib.Computability.ContextFreeGrammar

/-!
The grammar of expressions and conditions as it is written down, and the trees
of its derivations. `grammar` lists the productions; a repetition is a category
of its own. A `Derivation` is a derivation tree, and `Derivation.tree` is the
expression that it stands for, which joins repeated operands from the left.

A text of spaced tokens is parsed exactly if the grammar generates its tokens,
and then as the one expression that all of their derivations stand for.
-/

namespace LineBasic

mutual

inductive Derivation : Level → Type
  | number (x : Numeral) : Derivation .atom
  | text (content : List Char) : Derivation .atom
  | variable (name : List Char) : Derivation .atom
  | invoke (function : List Char) : Derivation .atom
  | apply (function : List Char) (argument : Derivation .sum) : Derivation .atom
  | parens (inner : Derivation .alternative) : Derivation .atom
  | unsigned (operand : Derivation .atom) : Derivation .sign
  | plus (operand : Derivation .sign) : Derivation .sign
  | minus (operand : Derivation .sign) : Derivation .sign
  | affirmed (operand : Derivation .comparison) : Derivation .negation
  | not (operand : Derivation .negation) : Derivation .negation
  | chain {level : Level} (hlevel : level.IsChain) (first : Derivation level.tighter)
      (more : Repetition level) : Derivation level

inductive Repetition : Level → Type
  | nil {level : Level} : Repetition level
  | cons {level : Level} (op : BinaryOp) (hop : op.level = level)
      (operand : Derivation level.tighter) (more : Repetition level) : Repetition level

end

mutual

def Derivation.tokens {level : Level} : Derivation level → List Token
  | .number x => [.number x]
  | .text content => [.text content]
  | .variable name => [.name name]
  | .invoke function => [.name function, .lparen, .rparen]
  | .apply function argument => .name function :: .lparen :: (argument.tokens ++ [.rparen])
  | .parens inner => .lparen :: (inner.tokens ++ [.rparen])
  | .unsigned operand => operand.tokens
  | .plus operand => .operator .add :: operand.tokens
  | .minus operand => .operator .subtract :: operand.tokens
  | .affirmed operand => operand.tokens
  | .not operand => .bang :: operand.tokens
  | .chain _ first more => first.tokens ++ more.tokens

def Repetition.tokens {level : Level} : Repetition level → List Token
  | .nil => []
  | .cons op _ operand more => .operator op :: (operand.tokens ++ more.tokens)

end

mutual

/-- The expression that a derivation stands for. Parentheses leave no trace,
and names are put into upper case. -/
def Derivation.tree {level : Level} : Derivation level → Expr
  | .number x => .number x
  | .text content => .text (String.ofList content)
  | .variable name => .variable (Expr.treeName name)
  | .invoke function => .invoke (Expr.treeName function)
  | .apply function argument => .apply (Expr.treeName function) argument.tree
  | .parens inner => inner.tree
  | .unsigned operand => operand.tree
  | .plus operand => .unary .plus operand.tree
  | .minus operand => .unary .minus operand.tree
  | .affirmed operand => operand.tree
  | .not operand => .unary .not operand.tree
  | .chain _ first more => more.treeAfter first.tree

/-- The expression of a chain whose operands so far make up `left`. -/
def Repetition.treeAfter {level : Level} (left : Expr) : Repetition level → Expr
  | .nil => left
  | .cons op _ operand more => more.treeAfter (.binary op left operand.tree)

end

mutual

/-- What a derivation tree stands for is derived from its tokens. -/
theorem Derivation.derives {level : Level} :
    ∀ d : Derivation level, Expr.Derives level d.tokens d.tree
  | .number x => .number x
  | .text content => .text content
  | .variable name => .variable name
  | .invoke function => .invoke function
  | .apply function argument => .apply function argument.derives
  | .parens inner => .parens inner.derives
  | .unsigned operand => .operand (by decide) operand.derives
  | .plus operand => .plus operand.derives
  | .minus operand => .minus operand.derives
  | .affirmed operand => .operand (by decide) operand.derives
  | .not operand => .not operand.derives
  | .chain hlevel first more => more.derives (.operand hlevel.ne_atom first.derives)

/-- Each further operand of a chain is joined to all operands before it. -/
theorem Repetition.derives {level : Level} {before : List Token} {left : Expr}
    (h : Expr.Derives level before left) :
    ∀ more : Repetition level, Expr.Derives level (before ++ more.tokens) (more.treeAfter left)
  | .nil => by simpa [Repetition.tokens, Repetition.treeAfter] using h
  | .cons op hop operand more => by
    have hjoined := more.derives (.binary hop h operand.derives)
    simpa [Repetition.tokens, Repetition.treeAfter] using hjoined

end

namespace Repetition

variable {level : Level}

def concat (op : BinaryOp) (hop : op.level = level) (operand : Derivation level.tighter) :
    Repetition level → Repetition level
  | .nil => .cons op hop operand .nil
  | .cons op' hop' operand' more => .cons op' hop' operand' (more.concat op hop operand)

theorem tokens_concat (op : BinaryOp) (hop : op.level = level) (operand : Derivation level.tighter)
    (more : Repetition level) :
    (more.concat op hop operand).tokens = more.tokens ++ .operator op :: operand.tokens := by
  match more with
  | .nil => simp [concat, tokens]
  | .cons _ _ _ more => simp [concat, tokens, more.tokens_concat op hop operand]

theorem treeAfter_concat (op : BinaryOp) (hop : op.level = level)
    (operand : Derivation level.tighter) (left : Expr) (more : Repetition level) :
    (more.concat op hop operand).treeAfter left =
      .binary op (more.treeAfter left) operand.tree := by
  match more with
  | .nil => rfl
  | .cons _ _ _ more =>
    simp only [concat, treeAfter]
    exact more.treeAfter_concat op hop operand _

end Repetition

namespace Derivation

variable {level : Level}

/-- A derivation of a level of chains is a chain. -/
theorem exists_chain (hlevel : level.IsChain) (d : Derivation level) :
    ∃ first more, d = .chain hlevel first more := by
  cases d with
  | chain _ first more => exact ⟨first, more, rfl⟩
  | _ =>
    obtain ⟨op, hop⟩ := hlevel
    cases op <;> cases hop

/-- Whatever is derived has a derivation tree. -/
theorem exists_of_derives {ts : List Token} {e : Expr} (h : Expr.Derives level ts e) :
    ∃ d : Derivation level, d.tokens = ts ∧ d.tree = e := by
  induction h with
  | number x => exact ⟨.number x, rfl, rfl⟩
  | text content => exact ⟨.text content, rfl, rfl⟩
  | «variable» name => exact ⟨.variable name, rfl, rfl⟩
  | invoke function => exact ⟨.invoke function, rfl, rfl⟩
  | apply function _ ih =>
    obtain ⟨argument, rfl, rfl⟩ := ih
    exact ⟨.apply function argument, rfl, rfl⟩
  | parens _ ih =>
    obtain ⟨inner, rfl, rfl⟩ := ih
    exact ⟨.parens inner, rfl, rfl⟩
  | plus _ ih =>
    obtain ⟨operand, rfl, rfl⟩ := ih
    exact ⟨.plus operand, rfl, rfl⟩
  | minus _ ih =>
    obtain ⟨operand, rfl, rfl⟩ := ih
    exact ⟨.minus operand, rfl, rfl⟩
  | not _ ih =>
    obtain ⟨operand, rfl, rfl⟩ := ih
    exact ⟨.not operand, rfl, rfl⟩
  | @operand level _ _ hlevel _ ih =>
    obtain ⟨operand, rfl, rfl⟩ := ih
    rcases level.isChain_or with hchain | rfl | rfl | rfl
    · exact ⟨.chain hchain operand .nil, by simp [tokens, Repetition.tokens], rfl⟩
    · exact ⟨.affirmed operand, rfl, rfl⟩
    · exact ⟨.unsigned operand, rfl, rfl⟩
    · exact absurd rfl hlevel
  | @binary level op _ _ _ _ hop _ _ ihleft ihright =>
    obtain ⟨left, rfl, rfl⟩ := ihleft
    obtain ⟨right, rfl, rfl⟩ := ihright
    obtain ⟨first, more, rfl⟩ := left.exists_chain ⟨op, hop⟩
    refine ⟨.chain ⟨op, hop⟩ first (more.concat op hop right), ?_, ?_⟩
    · simp [tokens, more.tokens_concat]
    · simp [tree, more.treeAfter_concat]

end Derivation

namespace Expr

/-- The parser reads exactly the expressions of derivations. -/
theorem ofTokens?_eq_some_iff_exists {level : Level} {ts : List Token} {e : Expr} :
    ofTokens? level ts = some e ↔ ∃ d : Derivation level, d.tokens = ts ∧ d.tree = e := by
  rw [ofTokens?_eq_some_iff]
  constructor
  · exact Derivation.exists_of_derives
  · rintro ⟨d, rfl, rfl⟩
    exact d.derives

end Expr

inductive Token.Kind where
  | number
  | text
  | name
  | operator (c : OperatorClass)
  | bang
  | lparen
  | rparen
deriving DecidableEq, Repr

def Token.kind : Token → Token.Kind
  | .number _ => .number
  | .text _ => .text
  | .name _ => .name
  | .operator op => .operator op.operatorClass
  | .bang => .bang
  | .lparen => .lparen
  | .rparen => .rparen

namespace Grammar

inductive Category where
  | level (level : Level)
  | more (level : Level)
deriving DecidableEq, Repr

abbrev Phrase := Symbol Token.Kind Category

abbrev sub (level : Level) : Phrase := .nonterminal (.level level)

/-- The productions of a level that joins operands of another by the operators of a
class: `level → operand more`, where `more` is empty or an operator, an
operand, and more. -/
def chainProductions (level : Level) (c : OperatorClass) (operand : Level) :
    List (ContextFreeRule Token.Kind Category) := [
  ⟨.level level, [sub operand, .nonterminal (.more level)]⟩,
  ⟨.more level, []⟩,
  ⟨.more level, [.terminal (.operator c), sub operand, .nonterminal (.more level)]⟩]

/-- The productions of the operators in front of an operand. -/
def unaryProductions : List (ContextFreeRule Token.Kind Category) := [
  ⟨.level .negation, [.terminal .bang, sub .negation]⟩,
  ⟨.level .negation, [sub .comparison]⟩,
  ⟨.level .sign, [.terminal (.operator .additive), sub .sign]⟩,
  ⟨.level .sign, [sub .atom]⟩]

/-- The productions of what stands for itself: numerals, texts, calls, variables,
and conditions between parentheses. -/
def atomProductions : List (ContextFreeRule Token.Kind Category) := [
  ⟨.level .atom, [.terminal .number]⟩,
  ⟨.level .atom, [.terminal .text]⟩,
  ⟨.level .atom, [.terminal .name, .terminal .lparen, sub .sum, .terminal .rparen]⟩,
  ⟨.level .atom, [.terminal .name, .terminal .lparen, .terminal .rparen]⟩,
  ⟨.level .atom, [.terminal .name]⟩,
  ⟨.level .atom, [.terminal .lparen, sub .alternative, .terminal .rparen]⟩]

/-- All productions. Every level but the two of the unary operators and the
atoms is one of chains. -/
def productions : List (ContextFreeRule Token.Kind Category) :=
  chainProductions .alternative .or .conjunction ++
  chainProductions .conjunction .and .negation ++
  chainProductions .comparison .comparison .sum ++
  chainProductions .sum .additive .product ++
  chainProductions .product .multiplicative .sign ++ unaryProductions ++ atomProductions

def rules : Finset (ContextFreeRule Token.Kind Category) := productions.toFinset

end Grammar

abbrev grammar (start : Level) : ContextFreeGrammar Token.Kind where
  NT := Grammar.Category
  initial := .level start
  rules := Grammar.rules

namespace Grammar

def phrase (ts : List Token) : List Phrase := ts.map fun t => .terminal t.kind

@[simp] theorem phrase_nil : phrase [] = [] := rfl

@[simp] theorem phrase_cons (t : Token) (ts : List Token) :
    phrase (t :: ts) = .terminal t.kind :: phrase ts := rfl

@[simp] theorem phrase_append (ts ts' : List Token) :
    phrase (ts ++ ts') = phrase ts ++ phrase ts' :=
  List.map_append

section Generation

variable {start : Level}

theorem derives_of_mem {r : ContextFreeRule Token.Kind Category} (h : r ∈ productions)
    {v : List Phrase} (hv : (grammar start).Derives r.output v) :
    (grammar start).Derives [.nonterminal r.input] v :=
  .head ⟨r, List.mem_toFinset.mpr h, ContextFreeRule.Rewrites.input_output⟩ hv

theorem derives_cons {x : Phrase} {xs u v : List Phrase} (hx : (grammar start).Derives [x] u)
    (hxs : (grammar start).Derives xs v) : (grammar start).Derives (x :: xs) (u ++ v) :=
  (hx.append_right xs).trans (hxs.append_left u)

theorem derives_terminal {k : Token.Kind} {xs v : List Phrase}
    (hxs : (grammar start).Derives xs v) :
    (grammar start).Derives (.terminal k :: xs) (.terminal k :: v) :=
  hxs.append_left [.terminal k]

/-- The productions of a chain are among the productions. -/
theorem mem_productions_of_chain {level : Level} {op : BinaryOp} (hop : op.level = level)
    {r : ContextFreeRule Token.Kind Category}
    (h : r ∈ chainProductions level op.operatorClass level.tighter) : r ∈ productions := by
  subst hop
  revert r
  cases op <;> decide

mutual

/-- The grammar generates the tokens of every derivation. -/
theorem derives_tokens {level : Level} :
    ∀ d : Derivation level, (grammar start).Derives [sub level] (phrase d.tokens)
  | .number _ => derives_of_mem (r := ⟨.level .atom, [.terminal .number]⟩) (by decide) (.refl _)
  | .text _ => derives_of_mem (r := ⟨.level .atom, [.terminal .text]⟩) (by decide) (.refl _)
  | .variable _ => derives_of_mem (r := ⟨.level .atom, [.terminal .name]⟩) (by decide) (.refl _)
  | .invoke _ =>
    derives_of_mem (r := ⟨.level .atom, [.terminal .name, .terminal .lparen, .terminal .rparen]⟩)
      (by decide) (.refl _)
  | .apply _ argument => by
    have hrest := derives_cons (derives_tokens argument) (.refl [.terminal .rparen])
    simpa [Derivation.tokens, Token.kind] using derives_of_mem
      (r := ⟨.level .atom, [.terminal .name, .terminal .lparen, sub .sum, .terminal .rparen]⟩)
      (by decide) (derives_terminal (derives_terminal hrest))
  | .parens inner => by
    have hrest := derives_cons (derives_tokens inner) (.refl [.terminal .rparen])
    simpa [Derivation.tokens, Token.kind] using derives_of_mem
      (r := ⟨.level .atom, [.terminal .lparen, sub .alternative, .terminal .rparen]⟩)
      (by decide) (derives_terminal hrest)
  | .unsigned operand =>
    derives_of_mem (r := ⟨.level .sign, [sub .atom]⟩) (by decide) (derives_tokens operand)
  | .plus operand =>
    derives_of_mem (r := ⟨.level .sign, [.terminal (.operator .additive), sub .sign]⟩) (by decide)
      (derives_terminal (derives_tokens operand))
  | .minus operand =>
    derives_of_mem (r := ⟨.level .sign, [.terminal (.operator .additive), sub .sign]⟩) (by decide)
      (derives_terminal (derives_tokens operand))
  | .affirmed operand =>
    derives_of_mem (r := ⟨.level .negation, [sub .comparison]⟩) (by decide)
      (derives_tokens operand)
  | .not operand =>
    derives_of_mem (r := ⟨.level .negation, [.terminal .bang, sub .negation]⟩) (by decide)
      (derives_terminal (derives_tokens operand))
  | .chain hlevel first more => by
    have hrest := derives_cons (derives_tokens first) (derives_repetition hlevel more)
    obtain ⟨_, hop⟩ := hlevel
    simpa [Derivation.tokens] using derives_of_mem
      (r := ⟨.level level, [sub level.tighter, .nonterminal (.more level)]⟩)
      (mem_productions_of_chain hop (by simp [chainProductions])) hrest

theorem derives_repetition {level : Level} (hlevel : level.IsChain) :
    ∀ more : Repetition level,
      (grammar start).Derives [.nonterminal (.more level)] (phrase more.tokens)
  | .nil => by
    obtain ⟨_, hop⟩ := hlevel
    exact derives_of_mem (r := ⟨.more level, []⟩)
      (mem_productions_of_chain hop (by simp [chainProductions])) (.refl _)
  | .cons op hop operand more => by
    have hrest := derives_cons (derives_tokens operand) (derives_repetition hlevel more)
    simpa [Repetition.tokens, Token.kind] using derives_of_mem
      (r := ⟨.more level, [.terminal (.operator op.operatorClass), sub level.tighter,
        .nonterminal (.more level)]⟩)
      (mem_productions_of_chain hop (by simp [chainProductions]))
      (derives_terminal hrest)

end

end Generation

def Spans : Phrase → List Token → Prop
  | .terminal k, ts => ∃ t, t.kind = k ∧ ts = [t]
  | .nonterminal (.level level), ts => ∃ d : Derivation level, d.tokens = ts
  | .nonterminal (.more level), ts => ∃ more : Repetition level, more.tokens = ts

/-- Whether tokens are derived from symbols one after another. -/
def SpansAll : List Phrase → List Token → Prop
  | [], ts => ts = []
  | x :: xs, ts => ∃ front rest, ts = front ++ rest ∧ Spans x front ∧ SpansAll xs rest

theorem spansAll_append {xs ys : List Phrase} {ts : List Token} :
    SpansAll (xs ++ ys) ts ↔ ∃ front rest, ts = front ++ rest ∧ SpansAll xs front ∧
      SpansAll ys rest := by
  induction xs generalizing ts with
  | nil => simp [SpansAll]
  | cons x xs ih =>
    constructor
    · rintro ⟨first, rest, rfl, hx, hrest⟩
      obtain ⟨middle, rest, rfl, hxs, hys⟩ := ih.mp hrest
      exact ⟨first ++ middle, rest, by simp, ⟨first, middle, rfl, hx, hxs⟩, hys⟩
    · rintro ⟨_, rest, rfl, ⟨first, middle, rfl, hx, hxs⟩, hys⟩
      exact ⟨first, middle ++ rest, by simp, hx, ih.mpr ⟨middle, rest, rfl, hxs, hys⟩⟩

@[simp] theorem spansAll_singleton {x : Phrase} {ts : List Token} :
    SpansAll [x] ts ↔ Spans x ts := by
  simp [SpansAll]

theorem spansAll_terminal_cons {k : Token.Kind} {xs : List Phrase} {ts : List Token}
    (h : SpansAll (.terminal k :: xs) ts) :
    ∃ t rest, ts = t :: rest ∧ t.kind = k ∧ SpansAll xs rest := by
  obtain ⟨_, rest, rfl, ⟨t, hk, rfl⟩, hrest⟩ := h
  exact ⟨t, rest, rfl, hk, hrest⟩

theorem spansAll_phrase (ts : List Token) : SpansAll (phrase ts) ts := by
  induction ts with
  | nil => rfl
  | cons t ts ih => exact ⟨[t], ts, rfl, ⟨t, rfl, rfl⟩, ih⟩

theorem eq_operator_of_kind {t : Token} {c : OperatorClass} (h : t.kind = .operator c) :
    ∃ op : BinaryOp, t = .operator op ∧ op.operatorClass = c := by
  cases t with
  | operator op => exact ⟨op, rfl, Token.Kind.operator.inj h⟩
  | _ => cases h

/-- The operators of a class are the ones that its level reads. -/
theorem spans_of_mem_chain (operators : OperatorClass) {c : Category} {body : List Phrase}
    {ts : List Token}
    (h : ⟨c, body⟩ ∈ chainProductions operators.level operators operators.level.tighter)
    (hts : SpansAll body ts) : Spans (.nonterminal c) ts := by
  simp only [chainProductions, List.mem_cons, List.not_mem_nil, or_false,
    ContextFreeRule.mk.injEq] at h
  rcases h with ⟨rfl, rfl⟩ | ⟨rfl, rfl⟩ | ⟨rfl, rfl⟩
  · obtain ⟨_, rest, rfl, ⟨first, rfl⟩, hrest⟩ := hts
    obtain ⟨more, rfl⟩ := spansAll_singleton.mp hrest
    exact ⟨.chain (Level.isChain_level operators) first more, rfl⟩
  · cases hts
    exact ⟨.nil, rfl⟩
  · obtain ⟨t, _, rfl, hk, hrest⟩ := spansAll_terminal_cons hts
    obtain ⟨op, rfl, hop⟩ := eq_operator_of_kind hk
    obtain ⟨_, rest, rfl, ⟨operand, rfl⟩, hrest⟩ := hrest
    obtain ⟨more, rfl⟩ := spansAll_singleton.mp hrest
    exact ⟨.cons op (hop ▸ op.level_operatorClass.symm) operand more, rfl⟩

theorem spans_of_mem_unary {c : Category} {body : List Phrase} {ts : List Token}
    (h : ⟨c, body⟩ ∈ unaryProductions) (hts : SpansAll body ts) : Spans (.nonterminal c) ts := by
  simp only [unaryProductions, List.mem_cons, List.not_mem_nil, or_false,
    ContextFreeRule.mk.injEq] at h
  rcases h with ⟨rfl, rfl⟩ | ⟨rfl, rfl⟩ | ⟨rfl, rfl⟩ | ⟨rfl, rfl⟩
  · obtain ⟨t, _, rfl, hk, hrest⟩ := spansAll_terminal_cons hts
    obtain ⟨operand, rfl⟩ := spansAll_singleton.mp hrest
    cases t <;> cases hk
    exact ⟨.not operand, rfl⟩
  · obtain ⟨operand, rfl⟩ := spansAll_singleton.mp hts
    exact ⟨.affirmed operand, rfl⟩
  · obtain ⟨t, _, rfl, hk, hrest⟩ := spansAll_terminal_cons hts
    obtain ⟨operand, rfl⟩ := spansAll_singleton.mp hrest
    obtain ⟨op, rfl, hop⟩ := eq_operator_of_kind hk
    cases op with
    | add => exact ⟨.plus operand, rfl⟩
    | subtract => exact ⟨.minus operand, rfl⟩
    | _ => cases hop
  · obtain ⟨operand, rfl⟩ := spansAll_singleton.mp hts
    exact ⟨.unsigned operand, rfl⟩

theorem spans_of_mem_atom {c : Category} {body : List Phrase} {ts : List Token}
    (h : ⟨c, body⟩ ∈ atomProductions) (hts : SpansAll body ts) : Spans (.nonterminal c) ts := by
  simp only [atomProductions, List.mem_cons, List.not_mem_nil, or_false,
    ContextFreeRule.mk.injEq] at h
  rcases h with ⟨rfl, rfl⟩ | ⟨rfl, rfl⟩ | ⟨rfl, rfl⟩ | ⟨rfl, rfl⟩ | ⟨rfl, rfl⟩ | ⟨rfl, rfl⟩
  · obtain ⟨t, ht, rfl⟩ := spansAll_singleton.mp hts
    cases t <;> cases ht
    next x => exact ⟨.number x, rfl⟩
  · obtain ⟨t, ht, rfl⟩ := spansAll_singleton.mp hts
    cases t <;> cases ht
    next content => exact ⟨.text content, rfl⟩
  · obtain ⟨t, _, rfl, ht, hcall⟩ := spansAll_terminal_cons hts
    obtain ⟨opening, _, rfl, hopening, _, _, rfl, ⟨argument, rfl⟩, hlast⟩ :=
      spansAll_terminal_cons hcall
    obtain ⟨closing, hclosing, rfl⟩ := spansAll_singleton.mp hlast
    cases opening <;> cases hopening
    cases closing <;> cases hclosing
    cases t <;> cases ht
    next name => exact ⟨.apply name argument, rfl⟩
  · obtain ⟨t, _, rfl, ht, hcall⟩ := spansAll_terminal_cons hts
    obtain ⟨opening, _, rfl, hopening, hlast⟩ := spansAll_terminal_cons hcall
    obtain ⟨closing, hclosing, rfl⟩ := spansAll_singleton.mp hlast
    cases opening <;> cases hopening
    cases closing <;> cases hclosing
    cases t <;> cases ht
    next name => exact ⟨.invoke name, rfl⟩
  · obtain ⟨t, ht, rfl⟩ := spansAll_singleton.mp hts
    cases t <;> cases ht
    next name => exact ⟨.variable name, rfl⟩
  · obtain ⟨opening, _, rfl, hopening, _, _, rfl, ⟨inner, rfl⟩, hlast⟩ :=
      spansAll_terminal_cons hts
    obtain ⟨closing, hclosing, rfl⟩ := spansAll_singleton.mp hlast
    cases opening <;> cases hopening
    cases closing <;> cases hclosing
    exact ⟨.parens inner, rfl⟩

/-- What the body of a production spans, its category spans. -/
theorem spans_of_mem {c : Category} {body : List Phrase} {ts : List Token}
    (h : ⟨c, body⟩ ∈ productions) (hts : SpansAll body ts) : Spans (.nonterminal c) ts := by
  simp only [productions, List.mem_append] at h
  rcases h with (((((h | h) | h) | h) | h) | h) | h
  · exact spans_of_mem_chain .or h hts
  · exact spans_of_mem_chain .and h hts
  · exact spans_of_mem_chain .comparison h hts
  · exact spans_of_mem_chain .additive h hts
  · exact spans_of_mem_chain .multiplicative h hts
  · exact spans_of_mem_unary h hts
  · exact spans_of_mem_atom h hts

/-- A single rewriting step, read backwards. -/
theorem spansAll_of_produces {start : Level} {u v : List Phrase} {ts : List Token}
    (h : (grammar start).Produces u v) (hts : SpansAll v ts) : SpansAll u ts := by
  obtain ⟨r, hr, hrewrites⟩ := h
  obtain ⟨before, after, rfl, rfl⟩ := hrewrites.exists_parts
  obtain ⟨front, rest, rfl, hfront, hafter⟩ := spansAll_append.mp hts
  obtain ⟨left, middle, rfl, hbefore, hbody⟩ := spansAll_append.mp hfront
  have hmiddle := spans_of_mem (List.mem_toFinset.mp hr) hbody
  refine spansAll_append.mpr ⟨left ++ middle, rest, rfl, ?_, hafter⟩
  exact spansAll_append.mpr ⟨left, middle, rfl, hbefore, spansAll_singleton.mpr hmiddle⟩

theorem spansAll_of_derives {start : Level} {u v : List Phrase} {ts : List Token}
    (h : (grammar start).Derives u v) (hts : SpansAll v ts) : SpansAll u ts := by
  induction h using Relation.ReflTransGen.head_induction_on with
  | refl => exact hts
  | head hstep _ ih => exact spansAll_of_produces hstep ih

/-- The grammar generates exactly the tokens of derivations. -/
theorem mem_language_iff {start : Level} {ts : List Token} :
    ts.map Token.kind ∈ (grammar start).language ↔ ∃ d : Derivation start, d.tokens = ts := by
  have hphrase : (ts.map Token.kind).map Symbol.terminal = phrase ts := by
    simp [phrase, Function.comp_def]
  constructor
  · intro h
    have hderives : (grammar start).Derives [sub start] (phrase ts) := hphrase ▸ h
    exact spansAll_singleton.mp (spansAll_of_derives hderives (spansAll_phrase ts))
  · rintro ⟨d, rfl⟩
    have hderives : (grammar start).Derives [sub start] (phrase d.tokens) := derives_tokens d
    rw [← hphrase] at hderives
    exact hderives

end Grammar

/-- The tokens of a text of spaced tokens, also if there are none. -/
theorem tokens?_spaced_spelling {ts : List Token} (hts : ∀ t ∈ ts, t.IsSpelled) :
    tokens? (spaced (ts.map Token.spelling)) = some ts := by
  by_cases hne : ts = []
  · subst hne
    simp [spaced, tokens?]
  · have htokens := tokens?_spaced hne fun t ht => (hts t ht).cutsInto
    simpa using htokens

structure ParsesBy (start : Level) (parse : List Char → Option Expr) (ts : List Token) : Prop where
  accepts_iff : (parse (spaced (ts.map Token.spelling))).isSome = true ↔
    ts.map Token.kind ∈ (grammar start).language
  eq_some_iff : ∀ e, parse (spaced (ts.map Token.spelling)) = some e ↔
    ∃ d : Derivation start, d.tokens = ts ∧ d.tree = e
  unique : ∀ d d' : Derivation start, d.tokens = ts → d'.tokens = ts → d.tree = d'.tree

theorem parsesBy_parse? (start : Level) {ts : List Token} (hts : ∀ t ∈ ts, t.IsSpelled) :
    ParsesBy start (Expr.parse? start) ts := by
  have hparse : Expr.parse? start (spaced (ts.map Token.spelling)) = Expr.ofTokens? start ts := by
    simp [Expr.parse?, tokens?_spaced_spelling hts]
  have htree : ∀ e, Expr.ofTokens? start ts = some e ↔
      ∃ d : Derivation start, d.tokens = ts ∧ d.tree = e :=
    fun e => Expr.ofTokens?_eq_some_iff_exists
  refine ⟨?_, hparse ▸ htree, ?_⟩
  · rw [hparse, Grammar.mem_language_iff, Option.isSome_iff_exists]
    constructor
    · rintro ⟨e, he⟩
      obtain ⟨d, hd, _⟩ := (htree e).mp he
      exact ⟨d, hd⟩
    · rintro ⟨d, hd⟩
      exact ⟨d.tree, (htree d.tree).mpr ⟨d, hd, rfl⟩⟩
  · rintro d d' rfl hd'
    exact d.derives.unique (hd' ▸ d'.derives)

/-- The texts of spaced tokens are parsed as the grammar has them, expressions
from the sums and conditions from the alternatives. -/
theorem parse_iff_derivation {ts : List Token} (hts : ∀ t ∈ ts, t.IsSpelled) :
    ParsesBy .sum Expr.ofExpression? ts ∧ ParsesBy .alternative Expr.ofCondition? ts :=
  ⟨parsesBy_parse? .sum hts, parsesBy_parse? .alternative hts⟩

/-- A comparison with two differences to its right: a condition of the second
start, and nothing that the first one generates. -/
theorem parse_iff_derivation_at_comparison :
    let one : Numeral := ⟨['1'], none, none⟩
    let ts : List Token := [.name ['a'], .operator .less, .number one, .operator .subtract,
      .number one, .operator .subtract, .number one]
    Expr.ofCondition? "a < 1 - 1 - 1".toList = some (.binary .less (.variable "A")
      (.binary .subtract (.binary .subtract (.number one) (.number one)) (.number one))) ∧
    ts.map Token.kind ∉ (grammar .sum).language := by
  intro one ts
  have hts : ∀ t ∈ ts, t.IsSpelled := by
    have hscan : ∀ t ∈ ts, Token.scan? t.spelling = some (t, []) := by decide
    exact fun t ht => Token.isSpelled_iff_scan?.mpr (hscan t ht)
  have htext : spaced (ts.map Token.spelling) = "a < 1 - 1 - 1".toList := by decide
  -- The derivation passes every level, with a single operand where there is no operator.
  let product (x : Derivation .atom) : Derivation .product :=
    .chain ⟨.multiply, rfl⟩ (.unsigned x) .nil
  let difference : Derivation .sum := .chain ⟨.add, rfl⟩ (product (.number one))
    (.cons .subtract rfl (product (.number one))
      (.cons .subtract rfl (product (.number one)) .nil))
  let comparison : Derivation .comparison := .chain ⟨.equal, rfl⟩
    (.chain ⟨.add, rfl⟩ (product (.variable ['a'])) .nil) (.cons .less rfl difference .nil)
  let d : Derivation .alternative :=
    .chain ⟨.or, rfl⟩ (.chain ⟨.and, rfl⟩ (.affirmed comparison) .nil) .nil
  obtain ⟨hexpression, hcondition⟩ := parse_iff_derivation hts
  constructor
  · rw [← htext]
    exact (hcondition.eq_some_iff _).mpr ⟨d, rfl, rfl⟩
  · intro hmem
    have haccepts := hexpression.accepts_iff.mpr hmem
    rw [htext] at haccepts
    exact absurd haccepts (by decide +kernel)

end LineBasic
