import LineBasic.Number.Binary64

/-!
The shortest decimal of a double: the fewest significant digits that read
back as the double, and of the decimals with that many digits the nearest.
-/

namespace LineBasic

structure Decimal where
  coefficient : Nat
  exponent : Int
deriving DecidableEq, Repr

namespace Decimal

def toFloat (negative : Bool) (x : Decimal) : Float :=
  Binary64.ofDecimal negative x.coefficient x.exponent

def ofBinary (mantissa : Nat) (exponent : Int) : Decimal :=
  if 0 ≤ exponent then ⟨mantissa * Nat.pow 2 exponent.toNat, 0⟩
  else ⟨mantissa * Nat.pow 5 (-exponent).toNat, exponent⟩

def isBelowPower (n d : Nat) (p : Int) : Bool :=
  if 0 ≤ p then n < d * Nat.pow 10 p.toNat else n * Nat.pow 10 (-p).toNat < d

/-- The place of the decimal point: the `p` with `10 ^ (p - 1) ≤ n / d` and
`n / d < 10 ^ p`, found from the binary logarithm. -/
def pointPlace (n d : Nat) : Int :=
  let p := (Binary64.floorLog2 n d * 30103).fdiv 100000
  if isBelowPower n d p then p
  else if isBelowPower n d (p + 1) then p + 1
  else p + 2

/-- The neighbours of `n / d` among the multiples of `10 ^ grid` that read back
as the double, the nearer one; a tie goes to the even coefficient. -/
def nearestOnGrid? (n d : Nat) (readsBack : Decimal → Bool) (grid : Int) : Option Decimal :=
  let (num, den) :=
    if 0 ≤ grid then (n, d * Nat.pow 10 grid.toNat) else (n * Nat.pow 10 (-grid).toNat, d)
  let below := num / den
  let low : Decimal := ⟨below, grid⟩
  let high : Decimal := ⟨below + 1, grid⟩
  let twice := 2 * (num % den)
  let preferLow := twice < den || (twice == den && below % 2 == 0)
  match readsBack low, readsBack high with
  | true, true => some (if preferLow then low else high)
  | true, false => some low
  | false, true => some high
  | false, false => none

/-- The shortest decimal of a finite double other than zero, from its mantissa
and exponent. Seventeen digits are enough for every double; the exact value
stands behind them. -/
def shortest (mantissa : Nat) (exponent : Int) : Decimal :=
  let x := (ofBinary mantissa exponent).toFloat false
  let n := if 0 ≤ exponent then mantissa * Nat.pow 2 exponent.toNat else mantissa
  let d := if 0 ≤ exponent then 1 else Nat.pow 2 (-exponent).toNat
  let p := pointPlace n d
  let grids : List Int := (List.range 17).map fun k : Nat => p - 1 - (k : Int)
  let readsBack (y : Decimal) : Bool := (y.toFloat false).toBits == x.toBits
  (grids.findSome? (nearestOnGrid? n d readsBack)).getD (ofBinary mantissa exponent)

end Decimal

end LineBasic
