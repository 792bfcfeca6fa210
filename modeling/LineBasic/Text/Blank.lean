import LineBasic.Text.Ranges

/-!
Blanks, and trimming them from the ends of a text. The blanks are the spaces,
tabs and separators of every script, so they include the no-break space and
the four information separators.
-/

namespace LineBasic.Text

def blankRanges : List (Nat × Nat) := [
  (0x85, 0x85), (0xA0, 0xA0), (0x1680, 0x1680), (0x2000, 0x200A), (0x2028, 0x2029),
  (0x202F, 0x202F), (0x205F, 0x205F), (0x3000, 0x3000)]

/-- A character that separates words and is trimmed from the ends of a text. -/
def isBlank (c : Char) : Bool :=
  let n := c.toNat
  if n < 128 then
    (9 ≤ n && n ≤ 13) || (28 ≤ n && n ≤ 32)
  else
    Ranges.contains blankRanges n

def trimLeft (cs : List Char) : List Char := cs.dropWhile isBlank

def trimRight : List Char → List Char
  | [] => []
  | c :: cs =>
    match trimRight cs with
    | [] => if isBlank c then [] else [c]
    | d :: ds => c :: d :: ds

theorem length_trimLeft_le (cs : List Char) : (trimLeft cs).length ≤ cs.length :=
  (List.dropWhile_sublist isBlank).length_le

theorem length_trimRight_le (cs : List Char) : (trimRight cs).length ≤ cs.length := by
  induction cs with
  | nil => exact Nat.le_refl _
  | cons c cs ih =>
    rw [trimRight]
    split
    · split <;> simp
    · next heq =>
      rw [heq] at ih
      simpa using ih

def trim (cs : List Char) : List Char := trimRight (trimLeft cs)

theorem length_trim_le (cs : List Char) : (trim cs).length ≤ cs.length :=
  Nat.le_trans (length_trimRight_le _) (length_trimLeft_le _)

def trimString (s : String) : String := String.ofList (trim s.toList)

def firstWord (cs : List Char) : List Char := (trimLeft cs).takeWhile fun c => !isBlank c

end LineBasic.Text
