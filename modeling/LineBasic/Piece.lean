import LineBasic.Expr.Token
import LineBasic.Text.Word

/-!
Texts as sequences of pieces: text literals, words, and single characters.
Conditions and PRINT arguments are filled in piece by piece. A word starts at
an ASCII letter or an underscore that follows no word character, and a double
quote without a partner is a character like any other.
-/

namespace LineBasic

inductive Piece where
  | quoted (content : List Char)
  | word (spelling : List Char)
  | other (c : Char)
deriving DecidableEq, Repr

namespace Piece

def spelling : Piece → List Char
  | .quoted content => '"' :: content ++ ['"']
  | .word cs => cs
  | .other c => [c]

/-- Cuts a text into pieces. `afterWord` tells whether a word character stands
before the text. -/
def cut (afterWord : Bool) : List Char → List Piece
  | [] => []
  | c :: cs =>
    if c = '"' then
      match _h : cs.dropWhile isInsideQuotes with
      | _ :: rest => .quoted (cs.takeWhile isInsideQuotes) :: cut false rest
      | [] => .other c :: cut false cs
    else if !afterWord && isNameStart c then
      .word (c :: cs.takeWhile Text.isWord) :: cut true (cs.dropWhile Text.isWord)
    else
      .other c :: cut (Text.isWord c) cs
termination_by cs => cs.length
decreasing_by
  · have := (List.dropWhile_sublist isInsideQuotes (l := cs)).length_le
    simp_all
    omega
  · simp
  · have := (List.dropWhile_sublist Text.isWord (l := cs)).length_le
    simp
    omega
  · simp

def ofText (cs : List Char) : List Piece := cut false cs

end Piece

end LineBasic
