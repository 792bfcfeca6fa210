/-!
Numbers are doubles. This module takes a double apart into sign, mantissa and
exponent, and builds the double nearest to a quotient or to a decimal, all in
exact natural-number arithmetic. A tie goes to the even neighbour.
-/

namespace LineBasic.Binary64

inductive Shape where
  | nan
  | infinite (negative : Bool)
  -- `mantissa * 2 ^ exponent`
  | finite (negative : Bool) (mantissa : Nat) (exponent : Int)
deriving DecidableEq, Repr

/-- The bits of positive infinity, and the bound of the bits of every finite
magnitude. -/
def infinityBits : Nat := 0x7ff0000000000000

def signBit : Nat := 0x8000000000000000

/-- The weight of the lowest bit of the exponent field, which is also the bit
that normal mantissas have in front of their fraction. -/
def hiddenBit : Nat := 0x10000000000000

def decode (x : Float) : Shape :=
  let bits : Nat := x.toBits.toNat
  let negative : Bool := signBit ≤ bits
  let magnitude : Nat := bits % signBit
  let field : Nat := magnitude / hiddenBit
  let fraction : Nat := magnitude % hiddenBit
  if field = 2047 then
    if fraction = 0 then .infinite negative else .nan
  else if field = 0 then .finite negative fraction (-1074)
  else .finite negative (hiddenBit + fraction) ((field : Int) - 1075)

def ofMagnitude (negative : Bool) (magnitude : Nat) : Float :=
  Float.ofBits (UInt64.ofNat ((if negative then signBit else 0) + magnitude))

def infinity (negative : Bool) : Float := ofMagnitude negative infinityBits

/-- The quotient rounded to the nearest natural number, a tie to the even one. -/
def roundDiv (n d : Nat) : Nat :=
  let q := n / d
  let r := n % d
  if 2 * r < d then q
  else if d < 2 * r then q + 1
  else if q % 2 = 0 then q else q + 1

def floorLog2 (n d : Nat) : Int :=
  let e : Int := (n.log2 : Int) - d.log2
  let reached := if 0 ≤ e then d * Nat.pow 2 e.toNat ≤ n else d ≤ n * Nat.pow 2 (-e).toNat
  if reached then e else e - 1

/-- The magnitude bits of the double nearest to `n / d`. With `q` the exponent
of the last place, the bits are the place's rank times the hidden bit plus the
rounded mantissa, so a mantissa rounded up to the next power of two carries
into the exponent field by itself. -/
def nearestBits (n d : Nat) : Nat :=
  let q := max (-1074) (floorLog2 n d - 52)
  let mantissa :=
    if 0 ≤ q then roundDiv n (d * Nat.pow 2 q.toNat)
    else roundDiv (n * Nat.pow 2 (-q).toNat) d
  min infinityBits ((q + 1074).toNat * hiddenBit + mantissa)

def ofRatio (negative : Bool) (n d : Nat) : Float :=
  ofMagnitude negative (if n = 0 then 0 else nearestBits n d)

/-- The double nearest to `coefficient * 10 ^ exponent`. Exponents far outside
the range of the doubles are settled without computing the power. -/
def ofDecimal (negative : Bool) (coefficient : Nat) (exponent : Int) : Float :=
  if coefficient = 0 then ofMagnitude negative 0
  else if 310 ≤ exponent then infinity negative
  else if 0 ≤ exponent then ofRatio negative (coefficient * Nat.pow 10 exponent.toNat) 1
  else if coefficient.log2 + 991 ≤ 3 * (-exponent).toNat then ofMagnitude negative 0
  else ofRatio negative coefficient (Nat.pow 10 (-exponent).toNat)

/-- The greatest integer not above a finite double; every other double is
returned as it is. -/
def floor (x : Float) : Float :=
  match decode x with
  | .finite negative m e =>
    if 0 ≤ e then
      ofRatio (negative && m != 0) (m * Nat.pow 2 e.toNat) 1
    else
      let d := Nat.pow 2 (-e).toNat
      let whole := if negative then (m + d - 1) / d else m / d
      ofRatio (negative && whole != 0) whole 1
  | _ => x

end LineBasic.Binary64
