/-!
Sets of code points, given as ascending lists of closed ranges.
-/

namespace LineBasic.Text.Ranges

def find? (ranges : List (Nat × Nat)) (n : Nat) : Option (Nat × Nat) :=
  ranges.find? fun r => r.1 ≤ n && n ≤ r.2

def contains (ranges : List (Nat × Nat)) (n : Nat) : Bool :=
  ranges.any fun r => r.1 ≤ n && n ≤ r.2

theorem contains_iff {ranges : List (Nat × Nat)} {n : Nat} :
    contains ranges n = true ↔ ∃ r ∈ ranges, r.1 ≤ n ∧ n ≤ r.2 := by
  simp [contains]

end LineBasic.Text.Ranges
