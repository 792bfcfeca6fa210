import LineBasic.Text.Digit

/-!
Line numbers as they are written: in a program's text, behind GOTO, GOSUB and
THEN, and in front of a typed line. The host reads whole numbers of at most
`Text.maxDigits` digits, leading zeros included, and breaks off at a longer one.
That is no fault of the program, and nothing reports it.
-/

namespace LineBasic

inductive LineNumber where
  | line (n : Nat)
  | oversized (digits : Nat)
deriving DecidableEq, Repr

namespace LineNumber

def ofDigits (cs : List Char) : LineNumber :=
  if cs.length ≤ Text.maxDigits then .line (Text.digitsValue cs) else .oversized cs.length

theorem ofDigits_of_le {cs : List Char} (h : cs.length ≤ Text.maxDigits) :
    ofDigits cs = .line (Text.digitsValue cs) :=
  if_pos h

theorem ofDigits_of_lt {cs : List Char} (h : Text.maxDigits < cs.length) :
    ofDigits cs = .oversized cs.length :=
  if_neg (Nat.not_le_of_lt h)

theorem ofDigits_eq_oversized_iff {cs : List Char} {digits : Nat} :
    ofDigits cs = .oversized digits ↔ Text.maxDigits < cs.length ∧ digits = cs.length := by
  unfold ofDigits
  split
  · next h => simp [Nat.not_lt_of_le h]
  · next h => simp [Nat.lt_of_not_le h, eq_comm]

end LineNumber

end LineBasic
