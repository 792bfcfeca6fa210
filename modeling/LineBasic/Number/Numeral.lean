import LineBasic.Number.Binary64
import LineBasic.Text.Blank
import LineBasic.Text.Digit

/-!
Numerals: digits with an optional point, or a point and digits, and then an
optional power of ten. `Numeral.scan?` reads the longest numeral at the front
of a text; `readNumber?` reads a whole text, with an optional sign, as the
nearest double.
-/

namespace LineBasic

structure Power where
  mark : Char
  sign : List Char
  digits : List Char
deriving DecidableEq, Repr

structure Numeral where
  whole : List Char
  -- there exactly if the point is
  fraction : Option (List Char)
  power : Option Power
deriving DecidableEq, Repr

namespace Power

def spelling (p : Power) : List Char := p.mark :: p.sign ++ p.digits

def value (p : Power) : Int :=
  let n : Int := Text.digitsValue p.digits
  if p.sign = ['-'] then -n else n

def frontSign : List Char → List Char
  | [] => []
  | c :: _ => if c = '+' ∨ c = '-' then [c] else []

/-- Reads a power of ten at the front of a text. A mark without digits after
it is no power. -/
def scan? : List Char → Option (Power × List Char)
  | [] => none
  | mark :: cs =>
    if mark = 'e' ∨ mark = 'E' then
      let rest := cs.drop (frontSign cs).length
      match rest.takeWhile Text.isDigit with
      | [] => none
      | d :: ds => some (⟨mark, frontSign cs, d :: ds⟩, rest.dropWhile Text.isDigit)
    else none

end Power

namespace Numeral

def spelling (x : Numeral) : List Char :=
  x.whole ++ x.fraction.elim [] ('.' :: ·) ++ x.power.elim [] Power.spelling

def coefficient (x : Numeral) : Nat := Text.digitsValue (x.whole ++ x.fraction.getD [])

/-- The power of ten that the coefficient is multiplied by. -/
def exponent (x : Numeral) : Int :=
  (x.power.map Power.value).getD 0 - ((x.fraction.getD []).length : Int)

/-- The double nearest to the numeral, with the given sign. -/
def signedValue (negative : Bool) (x : Numeral) : Float :=
  Binary64.ofDecimal negative x.coefficient x.exponent

def value (x : Numeral) : Float := x.signedValue false

/-- Completes a numeral by the power of ten at the front of `cs`, if one is
there. -/
def withPower (whole : List Char) (fraction : Option (List Char)) (cs : List Char) :
    Numeral × List Char :=
  match Power.scan? cs with
  | some (p, rest) => (⟨whole, fraction, some p⟩, rest)
  | none => (⟨whole, fraction, none⟩, cs)

def scan? (cs : List Char) : Option (Numeral × List Char) :=
  match cs.takeWhile Text.isDigit, cs.dropWhile Text.isDigit with
  | [], '.' :: rest =>
    match rest.takeWhile Text.isDigit with
    | [] => none
    | d :: ds => some (withPower [] (some (d :: ds)) (rest.dropWhile Text.isDigit))
  | [], _ => none
  | d :: ds, '.' :: rest =>
    some (withPower (d :: ds) (some (rest.takeWhile Text.isDigit)) (rest.dropWhile Text.isDigit))
  | d :: ds, rest => some (withPower (d :: ds) none rest)

/-- Reads a text that is a numeral from its first to its last character. -/
def ofText? (cs : List Char) : Option Numeral :=
  match scan? cs with
  | some (x, []) => some x
  | _ => none

end Numeral

/-- The double that a trimmed text denotes: a numeral with at most one sign in
front. -/
def readTrimmedNumber? : List Char → Option Float
  | '-' :: cs => (Numeral.ofText? cs).map (Numeral.signedValue true)
  | '+' :: cs => (Numeral.ofText? cs).map Numeral.value
  | cs => (Numeral.ofText? cs).map Numeral.value

/-- The number that a text denotes, blanks at either end ignored; `none` if
the text is not a number from end to end. -/
def readNumber? (s : String) : Option Float := readTrimmedNumber? (Text.trim s.toList)

end LineBasic
