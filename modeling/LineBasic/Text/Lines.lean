/-!
Cutting a text into lines and into fields. `lines` knows every line boundary
and does not count an empty last line; `fields` cuts at one character only
and always yields one more field than there are separators.
-/

namespace LineBasic.Text

/-- A character that ends a line: line feed, vertical tab, form feed, carriage
return, the file, group and record separators, next line, and the line and
paragraph separators. -/
def isLineBreak (c : Char) : Bool :=
  let n := c.toNat
  (10 ≤ n && n ≤ 13) || (28 ≤ n && n ≤ 30) || n == 0x85 || n == 0x2028 || n == 0x2029

/-- Puts a character in front of the first of several pieces. -/
def consFirst (c : Char) : List (List Char) → List (List Char)
  | [] => [[c]]
  | first :: others => (c :: first) :: others

/-- The lines of a text. A carriage return and the line feed after it are one
boundary. -/
def lines : List Char → List (List Char)
  | [] => []
  | '\r' :: '\n' :: cs => [] :: lines cs
  | c :: cs => if isLineBreak c then [] :: lines cs else consFirst c (lines cs)

/-- The pieces of a text between the occurrences of one character. -/
def fields (separator : Char) : List Char → List (List Char)
  | [] => [[]]
  | c :: cs =>
    if c = separator then [] :: fields separator cs
    else consFirst c (fields separator cs)

/-- The text with each carriage return, alone or before a line feed, replaced
by one line feed. -/
def unixNewlines : List Char → List Char
  | [] => []
  | '\r' :: '\n' :: cs => '\n' :: unixNewlines cs
  | '\r' :: cs => '\n' :: unixNewlines cs
  | c :: cs => c :: unixNewlines cs

def stringLines (s : String) : List String := (lines s.toList).map String.ofList

def stringFields (separator : Char) (s : String) : List String :=
  (fields separator s.toList).map String.ofList

end LineBasic.Text
