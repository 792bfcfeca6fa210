import LineBasic.Number.Shortest

/-!
How numbers are written. An integer below `10 ^ 21` is written in full; any
other number has its shortest digits, positionally while the decimal point
stands at most four places before or sixteen places behind the first digit,
and with a power of ten of at least two digits otherwise. Zero has no sign.
-/

namespace LineBasic

def natDigits (n : Nat) : List Char := Nat.toDigits 10 n

/-- A power of ten: its mark, its sign, and at least two digits. -/
def powerText (e : Int) : List Char :=
  let digits := natDigits e.natAbs
  'e' :: (if e < 0 then '-' else '+') :: (if digits.length < 2 then '0' :: digits else digits)

namespace Decimal

def significantDigits (x : Decimal) : List Char :=
  ((natDigits x.coefficient).reverse.dropWhile (· == '0')).reverse

/-- The number of places from the start of the digits to the decimal point. -/
def place (x : Decimal) : Int := (natDigits x.coefficient).length + x.exponent

def toText (x : Decimal) : List Char :=
  let digits := x.significantDigits
  let place := x.place
  if -4 < place ∧ place ≤ 16 then
    if place ≤ 0 then
      '0' :: '.' :: List.replicate (-place).toNat '0' ++ digits
    else if place < digits.length then
      digits.take place.toNat ++ '.' :: digits.drop place.toNat
    else
      digits ++ List.replicate (place.toNat - digits.length) '0'
  else
    let mantissa := match digits with
      | [] => []
      | [d] => [d]
      | d :: ds => d :: '.' :: ds
    mantissa ++ powerText (place - 1)

end Decimal

/-- The natural number equal to `mantissa * 2 ^ exponent`, if there is one. -/
def wholeNumber? (mantissa : Nat) (exponent : Int) : Option Nat :=
  if 0 ≤ exponent then some (mantissa * Nat.pow 2 exponent.toNat)
  else
    let d := Nat.pow 2 (-exponent).toNat
    if mantissa % d = 0 then some (mantissa / d) else none

def magnitudeText (mantissa : Nat) (exponent : Int) : List Char :=
  match wholeNumber? mantissa exponent with
  | some n =>
    if n < 1000000000000000000000 then natDigits n
    else (Decimal.shortest mantissa exponent).toText
  | none => (Decimal.shortest mantissa exponent).toText

def numberText (x : Float) : List Char :=
  match Binary64.decode x with
  | .nan => "NaN".toList
  | .infinite false => "Infinity".toList
  | .infinite true => "-Infinity".toList
  | .finite negative m e =>
    if negative && m != 0 then '-' :: magnitudeText m e else magnitudeText m e

def formatNumber (x : Float) : String := String.ofList (numberText x)

end LineBasic
