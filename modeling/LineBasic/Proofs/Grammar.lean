import LineBasic.Expr.Parser

/-!
The grammar as a relation, and the parser against it. `Expr.Derives` has one
rule for each production. Reading follows exactly its derivations, so each
list of tokens has at most one tree.

The binary operators are documented in five classes, from the loosest to the tightest.
`BinaryOp.level_operatorClass` says that the parser's table of levels has them so.
-/

namespace LineBasic

inductive OperatorClass where
  | or
  | and
  | comparison
  | additive
  | multiplicative
deriving DecidableEq, Repr

def BinaryOp.operatorClass : BinaryOp → OperatorClass
  | .or => .or
  | .and => .and
  | .equal | .notEqual | .different | .lessEqual | .greaterEqual | .less | .greater => .comparison
  | .add | .subtract => .additive
  | .multiply | .divide => .multiplicative

/-- The level whose operands the operators of a class join. -/
def OperatorClass.level : OperatorClass → Level
  | .or => .alternative
  | .and => .conjunction
  | .comparison => .comparison
  | .additive => .sum
  | .multiplicative => .product

theorem BinaryOp.level_operatorClass (op : BinaryOp) : op.operatorClass.level = op.level := by
  cases op <;> rfl

namespace Level

def depth : Level → Nat
  | .alternative => 0
  | .conjunction => 1
  | .negation => 2
  | .comparison => 3
  | .sum => 4
  | .product => 5
  | .sign => 6
  | .atom => 7

theorem depth_le (level : Level) : level.depth ≤ 7 := by
  cases level <;> decide

theorem depth_tighter {level : Level} (h : level ≠ .atom) :
    level.tighter.depth = level.depth + 1 := by
  cases level <;> first | rfl | exact absurd rfl h

def IsChain (level : Level) : Prop := ∃ op : BinaryOp, op.level = level

/-- The other levels are those of the operators in front of an operand, and the
tightest one. -/
theorem isChain_or (level : Level) :
    level.IsChain ∨ level = .negation ∨ level = .sign ∨ level = .atom := by
  cases level with
  | alternative => exact .inl ⟨.or, rfl⟩
  | conjunction => exact .inl ⟨.and, rfl⟩
  | comparison => exact .inl ⟨.equal, rfl⟩
  | sum => exact .inl ⟨.add, rfl⟩
  | product => exact .inl ⟨.multiply, rfl⟩
  | _ => simp

theorem isChain_level (c : OperatorClass) : c.level.IsChain := by
  cases c with
  | or => exact ⟨.or, rfl⟩
  | and => exact ⟨.and, rfl⟩
  | comparison => exact ⟨.equal, rfl⟩
  | additive => exact ⟨.add, rfl⟩
  | multiplicative => exact ⟨.multiply, rfl⟩

end Level

theorem BinaryOp.level_ne_atom (op : BinaryOp) : op.level ≠ .atom := by
  cases op <;> decide

theorem Level.IsChain.ne_atom {level : Level} (h : level.IsChain) : level ≠ .atom := by
  obtain ⟨op, rfl⟩ := h
  exact op.level_ne_atom

namespace Expr

inductive Derives : Level → List Token → Expr → Prop
  | number (x : Numeral) : Derives .atom [.number x] (.number x)
  | text (content : List Char) : Derives .atom [.text content] (.text (String.ofList content))
  | variable (cs : List Char) : Derives .atom [.name cs] (.variable (treeName cs))
  | invoke (cs : List Char) :
      Derives .atom [.name cs, .lparen, .rparen] (.invoke (treeName cs))
  | apply (cs : List Char) {ts : List Token} {e : Expr} (h : Derives .sum ts e) :
      Derives .atom (.name cs :: .lparen :: (ts ++ [.rparen])) (.apply (treeName cs) e)
  | parens {ts : List Token} {e : Expr} (h : Derives .alternative ts e) :
      Derives .atom (.lparen :: (ts ++ [.rparen])) e
  | plus {ts : List Token} {e : Expr} (h : Derives .sign ts e) :
      Derives .sign (.operator .add :: ts) (.unary .plus e)
  | minus {ts : List Token} {e : Expr} (h : Derives .sign ts e) :
      Derives .sign (.operator .subtract :: ts) (.unary .minus e)
  | not {ts : List Token} {e : Expr} (h : Derives .negation ts e) :
      Derives .negation (.bang :: ts) (.unary .not e)
  | operand {level : Level} {ts : List Token} {e : Expr} (hlevel : level ≠ .atom)
      (h : Derives level.tighter ts e) : Derives level ts e
  | binary {level : Level} {op : BinaryOp} {left right : List Token} {a b : Expr}
      (hop : op.level = level) (hleft : Derives level left a)
      (hright : Derives level.tighter right b) :
      Derives level (left ++ .operator op :: right) (.binary op a b)

end Expr

def Token.Opens (level : Level) : Token → Prop
  | .number _ | .text _ | .name _ | .lparen => True
  | .operator op => op.level = .sum ∧ level.depth ≤ Level.sign.depth
  | .bang => level.depth ≤ Level.negation.depth
  | .rparen => False

theorem Token.Opens.mono {level level' : Level} {t : Token} (h : t.Opens level)
    (hle : level'.depth ≤ level.depth) : t.Opens level' := by
  cases t with
  | operator op => exact ⟨h.1, Nat.le_trans hle h.2⟩
  | bang => exact Nat.le_trans hle h
  | rparen => exact h
  | _ => trivial

structure Level.Stops (level : Level) (rest : List Token) : Prop where
  not_lparen : rest.head? ≠ some .lparen
  looser : ∀ op, rest.head? = some (.operator op) → op.level.depth < level.depth

namespace Level

theorem Stops.mono {level level' : Level} {rest : List Token} (h : level.Stops rest)
    (hle : level.depth ≤ level'.depth) : level'.Stops rest where
  not_lparen := h.not_lparen
  looser op hop := Nat.lt_of_lt_of_le (h.looser op hop) hle

theorem stops_nil (level : Level) : level.Stops [] where
  not_lparen := by simp
  looser := by simp

theorem stops_rparen (level : Level) (rest : List Token) : level.Stops (.rparen :: rest) where
  not_lparen := by simp
  looser := by simp

/-- An operator ends its operands. -/
theorem stops_operator (op : BinaryOp) (rest : List Token) :
    op.level.tighter.Stops (.operator op :: rest) where
  not_lparen := by simp
  looser op' hop' := by
    cases hop'
    rw [depth_tighter op.level_ne_atom]
    exact Nat.lt_succ_self _

end Level

namespace Expr

section Derivation

variable {level : Level} {ts : List Token} {e : Expr}

/-- What is derived starts with a token that may open its level. -/
theorem Derives.exists_head (h : Derives level ts e) :
    ∃ t rest, ts = t :: rest ∧ t.Opens level := by
  induction h with
  | number | text | «variable» | invoke | apply | parens => exact ⟨_, _, rfl, trivial⟩
  | plus | minus => exact ⟨_, _, rfl, rfl, Nat.le_refl _⟩
  | not => exact ⟨_, _, rfl, Nat.le_refl _⟩
  | operand hlevel _ ih =>
    obtain ⟨t, rest, rfl, ht⟩ := ih
    exact ⟨t, rest, rfl, ht.mono (by rw [Level.depth_tighter hlevel]; exact Nat.le_succ _)⟩
  | binary hop _ _ ih _ =>
    obtain ⟨t, rest, rfl, ht⟩ := ih
    exact ⟨t, _, rfl, ht⟩

theorem Derives.length_pos (h : Derives level ts e) : 0 < ts.length := by
  obtain ⟨t, rest, rfl, _⟩ := h.exists_head
  exact Nat.succ_pos _

end Derivation

section Reading

variable {fuel : Nat} {level : Level} {ts rest : List Token} {e : Expr}

theorem read?_chain (hchain : level.IsChain) :
    read? (fuel + 1) level ts = match read? fuel level.tighter ts with
      | some (e, rest) => readMore? fuel level e rest
      | none => none := by
  obtain ⟨op, rfl⟩ := hchain
  cases op <;> rfl

/-- Reading a negation goes on at the comparisons, unless a bang comes first. -/
theorem read?_negation_of_opens {t : Token} (ht : t.Opens .comparison) :
    read? (fuel + 1) .negation (t :: ts) = read? fuel .comparison (t :: ts) := by
  cases t with
  | bang => exact absurd ht (by simp [Token.Opens, Level.depth])
  | _ => rfl

/-- Reading a sign goes on at the atoms, unless a sign comes first. -/
theorem read?_sign_of_opens {t : Token} (ht : t.Opens .atom) :
    read? (fuel + 1) .sign (t :: ts) = read? fuel .atom (t :: ts) := by
  cases t with
  | operator op => exact absurd ht.2 (by simp [Level.depth])
  | _ => rfl

theorem read?_variable (cs : List Char) (hrest : rest.head? ≠ some .lparen) :
    read? (fuel + 1) .atom (.name cs :: rest) = some (.variable (treeName cs), rest) := by
  cases rest with
  | nil => rfl
  | cons t rest =>
    cases t with
    | lparen => exact absurd rfl hrest
    | _ => rfl

theorem read?_apply (cs : List Char) {t : Token} (ht : t ≠ .rparen)
    (h : read? fuel .sum (t :: ts) = some (e, .rparen :: rest)) :
    read? (fuel + 1) .atom (.name cs :: .lparen :: t :: ts) =
      some (.apply (treeName cs) e, rest) := by
  cases t with
  | rparen => exact absurd rfl ht
  | _ => simp [read?, h]

/-- Reading ends behind the operands, unless an operator of the level follows. -/
theorem readMore?_of_stops (hstops : level.Stops rest) :
    readMore? (fuel + 1) level e rest = some (e, rest) := by
  cases rest with
  | nil => rfl
  | cons t rest =>
    have ht : t.operatorAt? level = none := by
      cases t with
      | operator op =>
        have hlt := hstops.looser op rfl
        have hne : op.level ≠ level := fun heq => by simp [heq] at hlt
        simp [Token.operatorAt?, hne]
      | _ => rfl
    simp [readMore?, ht]

theorem readMore?_operator {op : BinaryOp} (hop : op.level = level) :
    readMore? (fuel + 1) level e (.operator op :: ts) =
      match read? fuel level.tighter ts with
      | some (right, rest) => readMore? fuel level (.binary op e right) rest
      | none => none := by
  rewrite [readMore?, Token.operatorAt?, if_pos hop]
  rfl

end Reading

def need (level : Level) (n : Nat) : Nat := 10 * n + (8 - level.depth)

/-- Whether the tokens are read as the tree, whatever stops the level. -/
def Reads (level : Level) (ts : List Token) (e : Expr) : Prop :=
  ∀ fuel rest, need level ts.length ≤ fuel → level.Stops rest →
    read? fuel level (ts ++ rest) = some (e, rest)

/-- Whether reading the tokens comes to where the tree has been read and more
operands of the level may follow. -/
def ReadsOn (level : Level) (ts : List Token) (e : Expr) : Prop :=
  ∀ fuel rest, need level ts.length ≤ fuel → level.tighter.Stops rest →
    ∃ fuel', fuel ≤ fuel' + ts.length + 1 ∧
      read? fuel level (ts ++ rest) = readMore? fuel' level e rest

section Completeness

variable {level : Level} {ts : List Token} {e : Expr}

theorem ReadsOn.reads (h : ReadsOn level ts e) (hpos : 0 < ts.length)
    (hlevel : level ≠ .atom) : Reads level ts e := by
  intro fuel rest hfuel hstops
  have htighter : level.tighter.Stops rest :=
    hstops.mono (by rw [Level.depth_tighter hlevel]; exact Nat.le_succ _)
  obtain ⟨fuel', hle, hread⟩ := h fuel rest hfuel htighter
  have hdepth := level.depth_le
  obtain ⟨k, rfl⟩ : ∃ k, fuel' = k + 1 := ⟨fuel' - 1, by simp only [need] at hfuel; omega⟩
  rw [hread, readMore?_of_stops hstops]

/-- A chain of one operand. -/
theorem readsOn_operand (hchain : level.IsChain) (hlevel : level ≠ .atom)
    (h : Reads level.tighter ts e) : ReadsOn level ts e := by
  intro fuel rest hfuel hstops
  have hdepth := Level.depth_tighter hlevel
  have hle := level.tighter.depth_le
  obtain ⟨k, rfl⟩ : ∃ k, fuel = k + 1 := ⟨fuel - 1, by simp only [need] at hfuel; omega⟩
  have hread : read? k level.tighter (ts ++ rest) = some (e, rest) :=
    h k rest (by simp only [need] at hfuel ⊢; omega) hstops
  refine ⟨k, by omega, ?_⟩
  simp only [read?_chain hchain, hread]

/-- One more operand of a chain. -/
theorem readsOn_binary {op : BinaryOp} {left right : List Token} {a b : Expr}
    (hop : op.level = level) (hleft : ReadsOn level left a)
    (hright : Reads level.tighter right b) :
    ReadsOn level (left ++ .operator op :: right) (.binary op a b) := by
  intro fuel rest hfuel hstops
  have hlevel : level ≠ .atom := hop ▸ op.level_ne_atom
  have hdepth := Level.depth_tighter hlevel
  have hle := level.tighter.depth_le
  simp only [need, List.length_append, List.length_cons] at hfuel
  obtain ⟨fuel', hfuel', hread⟩ := hleft fuel (.operator op :: (right ++ rest))
    (by simp only [need]; omega) (hop ▸ Level.stops_operator op _)
  obtain ⟨k, rfl⟩ : ∃ k, fuel' = k + 1 := ⟨fuel' - 1, by omega⟩
  have hnext : read? k level.tighter (right ++ rest) = some (b, rest) :=
    hright k rest (by simp only [need]; omega) hstops
  refine ⟨k, by simp only [List.length_append, List.length_cons]; omega, ?_⟩
  rw [List.append_assoc, List.cons_append, hread, readMore?_operator hop, hnext]

/-- Below the chains an operand is read by the next level. -/
theorem reads_operand (hlevel : level ≠ .atom) (hchain : ¬ level.IsChain)
    (h : Derives level.tighter ts e) (ih : Reads level.tighter ts e) : Reads level ts e := by
  intro fuel rest hfuel hstops
  have hdepth := Level.depth_tighter hlevel
  have hle := level.tighter.depth_le
  obtain ⟨k, rfl⟩ : ∃ k, fuel = k + 1 := ⟨fuel - 1, by simp only [need] at hfuel; omega⟩
  have hread : read? k level.tighter (ts ++ rest) = some (e, rest) :=
    ih k rest (by simp only [need] at hfuel ⊢; omega) (hstops.mono (by omega))
  obtain ⟨t, ts, rfl, ht⟩ := h.exists_head
  rcases level.isChain_or with hyes | rfl | rfl | rfl
  · exact absurd hyes hchain
  · exact (read?_negation_of_opens ht).trans hread
  · exact (read?_sign_of_opens ht).trans hread
  · exact absurd rfl hlevel

/-- An operator in front of an operand of its own level. -/
theorem reads_unary {t : Token} {u : UnaryOp} (ih : Reads level ts e)
    (hread : ∀ {fuel rest}, read? fuel level (ts ++ rest) = some (e, rest) →
      read? (fuel + 1) level (t :: (ts ++ rest)) = some (.unary u e, rest)) :
    Reads level (t :: ts) (.unary u e) := by
  intro fuel rest hfuel hstops
  simp only [need, List.length_cons] at hfuel
  obtain ⟨k, rfl⟩ : ∃ k, fuel = k + 1 := ⟨fuel - 1, by omega⟩
  exact hread (ih k rest (by simp only [need]; omega) hstops)

theorem reads_parens (ih : Reads .alternative ts e) :
    Reads .atom (.lparen :: (ts ++ [.rparen])) e := by
  intro fuel rest hfuel _
  simp only [need, List.length_cons, List.length_append] at hfuel
  obtain ⟨k, rfl⟩ : ∃ k, fuel = k + 1 := ⟨fuel - 1, by omega⟩
  have hread : read? k .alternative (ts ++ .rparen :: rest) = some (e, .rparen :: rest) :=
    ih k _ (by simp only [need, Level.depth]; omega) (Level.stops_rparen _ _)
  simp [read?, hread]

theorem reads_apply (cs : List Char) (h : Derives .sum ts e) (ih : Reads .sum ts e) :
    Reads .atom (.name cs :: .lparen :: (ts ++ [.rparen])) (.apply (treeName cs) e) := by
  intro fuel rest hfuel _
  simp only [need, List.length_cons, List.length_append] at hfuel
  obtain ⟨k, rfl⟩ : ∃ k, fuel = k + 1 := ⟨fuel - 1, by omega⟩
  have hread : read? k .sum (ts ++ .rparen :: rest) = some (e, .rparen :: rest) :=
    ih k _ (by simp only [need, Level.depth]; omega) (Level.stops_rparen _ _)
  obtain ⟨t, ts, rfl, ht⟩ := h.exists_head
  have hne : t ≠ .rparen := fun heq => by simp [heq, Token.Opens] at ht
  simpa using read?_apply cs hne hread

/-- A single token that is read by itself. -/
theorem reads_atom {t : Token} {ts : List Token}
    (hread : ∀ {fuel rest}, rest.head? ≠ some .lparen →
      read? (fuel + 1) .atom (t :: (ts ++ rest)) = some (e, rest)) :
    Reads .atom (t :: ts) e := by
  intro fuel rest hfuel hstops
  simp only [need, List.length_cons] at hfuel
  obtain ⟨k, rfl⟩ : ∃ k, fuel = k + 1 := ⟨fuel - 1, by omega⟩
  exact hread hstops.not_lparen

/-- Whatever is derived is read. In a chain the tokens so far lead to where
more operands may follow, which is what the next operator needs. -/
theorem Derives.reads (h : Derives level ts e) :
    Reads level ts e ∧ (level.IsChain → ReadsOn level ts e) := by
  have hatom : ¬ Level.IsChain .atom := fun ⟨op, hop⟩ => op.level_ne_atom hop
  have hsign : ¬ Level.IsChain .sign := fun ⟨op, hop⟩ => by cases op <;> cases hop
  have hnegation : ¬ Level.IsChain .negation := fun ⟨op, hop⟩ => by cases op <;> cases hop
  induction h with
  | number x => exact ⟨reads_atom fun _ => rfl, fun hchain => absurd hchain hatom⟩
  | text content => exact ⟨reads_atom fun _ => rfl, fun hchain => absurd hchain hatom⟩
  | «variable» cs =>
    exact ⟨reads_atom fun hrest => read?_variable cs hrest, fun hchain => absurd hchain hatom⟩
  | invoke cs => exact ⟨reads_atom fun _ => rfl, fun hchain => absurd hchain hatom⟩
  | apply cs h ih => exact ⟨reads_apply cs h ih.1, fun hchain => absurd hchain hatom⟩
  | parens _ ih => exact ⟨reads_parens ih.1, fun hchain => absurd hchain hatom⟩
  | plus _ ih =>
    exact ⟨reads_unary ih.1 fun hread => by simp [read?, hread],
      fun hchain => absurd hchain hsign⟩
  | minus _ ih =>
    exact ⟨reads_unary ih.1 fun hread => by simp [read?, hread],
      fun hchain => absurd hchain hsign⟩
  | not _ ih =>
    exact ⟨reads_unary ih.1 fun hread => by simp [read?, hread],
      fun hchain => absurd hchain hnegation⟩
  | @operand level _ _ hlevel h ih =>
    by_cases hchain : level.IsChain
    · have hon := readsOn_operand hchain hlevel ih.1
      exact ⟨hon.reads h.length_pos hlevel, fun _ => hon⟩
    · exact ⟨reads_operand hlevel hchain h ih.1, fun hchain' => absurd hchain' hchain⟩
  | @binary level op left right _ _ hop hleft hright ihleft ihright =>
    have hon := readsOn_binary hop (ihleft.2 ⟨op, hop⟩) ihright.1
    have hlength : 0 < (left ++ .operator op :: right).length := by
      simp only [List.length_append, List.length_cons]
      omega
    exact ⟨hon.reads hlength (hop ▸ op.level_ne_atom), fun _ => hon⟩

end Completeness

section Soundness

variable {fuel : Nat} {level : Level} {ts rest : List Token} {e : Expr}

theorem eq_operator_of_operatorAt? {t : Token} {op : BinaryOp}
    (h : t.operatorAt? level = some op) : t = .operator op ∧ op.level = level := by
  cases t with
  | operator op' =>
    simp only [Token.operatorAt?] at h
    split at h
    · next hop =>
      cases h
      exact ⟨rfl, hop⟩
    · cases h
  | _ => cases h

/-- Whether whatever is read with some fuel is derived from the tokens in front
of the rest. -/
def ReadsSoundly (fuel : Nat) : Prop :=
  ∀ level ts e rest, read? fuel level ts = some (e, rest) →
    ∃ front, ts = front ++ rest ∧ Derives level front e

theorem derives_of_read?_negation (ih : ReadsSoundly fuel)
    (h : read? (fuel + 1) .negation ts = some (e, rest)) :
    ∃ front, ts = front ++ rest ∧ Derives .negation front e := by
  unfold read? at h
  split at h
  · split at h
    · next hread =>
      cases h
      obtain ⟨front, rfl, hfront⟩ := ih _ _ _ _ hread
      exact ⟨.bang :: front, rfl, .not hfront⟩
    · cases h
  · obtain ⟨front, rfl, hfront⟩ := ih _ _ _ _ h
    exact ⟨front, rfl, .operand (by decide) hfront⟩

theorem derives_of_read?_sign (ih : ReadsSoundly fuel)
    (h : read? (fuel + 1) .sign ts = some (e, rest)) :
    ∃ front, ts = front ++ rest ∧ Derives .sign front e := by
  unfold read? at h
  split at h
  · split at h
    · next hread =>
      cases h
      obtain ⟨front, rfl, hfront⟩ := ih _ _ _ _ hread
      exact ⟨.operator .add :: front, rfl, .plus hfront⟩
    · cases h
  · split at h
    · next hread =>
      cases h
      obtain ⟨front, rfl, hfront⟩ := ih _ _ _ _ hread
      exact ⟨.operator .subtract :: front, rfl, .minus hfront⟩
    · cases h
  · obtain ⟨front, rfl, hfront⟩ := ih _ _ _ _ h
    exact ⟨front, rfl, .operand (by decide) hfront⟩

theorem derives_of_read?_atom (ih : ReadsSoundly fuel)
    (h : read? (fuel + 1) .atom ts = some (e, rest)) :
    ∃ front, ts = front ++ rest ∧ Derives .atom front e := by
  unfold read? at h
  simp only at h
  split at h
  · next x _ =>
    cases h
    exact ⟨[.number x], rfl, .number x⟩
  · next s _ =>
    cases h
    exact ⟨[.text s], rfl, .text s⟩
  · next f _ =>
    cases h
    exact ⟨[.name f, .lparen, .rparen], rfl, .invoke f⟩
  · next f _ _ =>
    split at h
    · next hread =>
      cases h
      obtain ⟨front, rfl, hfront⟩ := ih _ _ _ _ hread
      exact ⟨.name f :: .lparen :: (front ++ [.rparen]), by simp, .apply f hfront⟩
    · cases h
  · next x _ _ _ =>
    cases h
    exact ⟨[.name x], rfl, .variable x⟩
  · split at h
    · next hread =>
      cases h
      obtain ⟨front, rfl, hfront⟩ := ih _ _ _ _ hread
      exact ⟨.lparen :: (front ++ [.rparen]), by simp, .parens hfront⟩
    · cases h
  · cases h

theorem derives_of_readMore? {before : List Token} {left : Expr} (ih : ReadsSoundly fuel)
    (ihmore : ∀ before left ts, Derives level before left →
      readMore? fuel level left ts = some (e, rest) →
      ∃ front, ts = front ++ rest ∧ Derives level (before ++ front) e)
    (hleft : Derives level before left)
    (h : readMore? (fuel + 1) level left ts = some (e, rest)) :
    ∃ front, ts = front ++ rest ∧ Derives level (before ++ front) e := by
  cases ts with
  | nil =>
    cases h
    exact ⟨[], rfl, by simpa using hleft⟩
  | cons t ts =>
    rw [readMore?] at h
    split at h
    · cases h
      exact ⟨[], rfl, by simpa using hleft⟩
    · next op hop =>
      obtain ⟨rfl, hlevel⟩ := eq_operator_of_operatorAt? hop
      split at h
      · next right rest' hread =>
        obtain ⟨front, rfl, hright⟩ := ih _ _ _ _ hread
        obtain ⟨front', rfl, hall⟩ := ihmore _ _ _ (.binary hlevel hleft hright) h
        exact ⟨.operator op :: (front ++ front'), by simp, by simpa using hall⟩
      · cases h

/-- Reading is sound with every fuel, and so is going on behind what has been
read. -/
theorem readsSoundly (fuel : Nat) :
    ReadsSoundly fuel ∧ ∀ level before left ts e rest, Derives level before left →
      readMore? fuel level left ts = some (e, rest) →
      ∃ front, ts = front ++ rest ∧ Derives level (before ++ front) e := by
  induction fuel with
  | zero =>
    constructor
    · intro _ _ _ _ h
      simp [read?] at h
    · intro _ _ _ _ _ _ _ h
      simp [readMore?] at h
  | succ fuel ih =>
    obtain ⟨ihread, ihmore⟩ := ih
    constructor
    · intro level ts e rest h
      rcases level.isChain_or with hchain | rfl | rfl | rfl
      · rw [read?_chain hchain] at h
        split at h
        · next first rest' hread =>
          obtain ⟨front, rfl, hfront⟩ := ihread _ _ _ _ hread
          obtain ⟨front', rfl, hall⟩ :=
            ihmore _ _ _ _ _ _ (.operand hchain.ne_atom hfront) h
          exact ⟨front ++ front', by simp, hall⟩
        · cases h
      · exact derives_of_read?_negation ihread h
      · exact derives_of_read?_sign ihread h
      · exact derives_of_read?_atom ihread h
    · intro level _ _ _ _ _ hleft h
      exact derives_of_readMore? ihread (fun _ _ _ => ihmore _ _ _ _ _ _) hleft h

end Soundness

/-- The parser accepts exactly what the grammar derives, as the tree that it
derives. -/
theorem ofTokens?_eq_some_iff {level : Level} {ts : List Token} {e : Expr} :
    ofTokens? level ts = some e ↔ Derives level ts e := by
  constructor
  · intro h
    unfold ofTokens? at h
    split at h
    · next hread =>
      cases h
      obtain ⟨front, rfl, hfront⟩ := (readsSoundly _).1 _ _ _ _ hread
      simpa using hfront
    · cases h
  · intro h
    have hread := h.reads.1 (10 * ts.length + 10) [] (by simp only [need]; omega)
      (Level.stops_nil level)
    rw [List.append_nil] at hread
    simp [ofTokens?, hread]

/-- A list of tokens has at most one tree. -/
theorem Derives.unique {level : Level} {ts : List Token} {e e' : Expr}
    (h : Derives level ts e) (h' : Derives level ts e') : e = e' := by
  have heq := (ofTokens?_eq_some_iff.mpr h).symm.trans (ofTokens?_eq_some_iff.mpr h')
  exact Option.some.inj heq

end Expr

end LineBasic
