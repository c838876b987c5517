import StackScript.Decimal.Binary64

set_option autoImplicit false

/-!
# The shortest decimal of a double

The reals that round to the double `mantissa * 2 ^ exponent` form an interval. `shortest` looks for
the coarsest decimal grid with a point in that interval: on each grid it tries the two neighbours
of the double itself, of two hits it takes the nearer one, and the upper one on a tie. All
arithmetic is exact.
-/
namespace StackScript.Decimal

/-- The positive decimal `0.d₁d₂… * 10 ^ point`, with `d₁` and the last digit not zero. -/
structure Digits where
  digits : List Char
  point : Int

/-- The reals that round to a double, all as numerators over one denominator. -/
structure Interval where
  low : Nat
  value : Nat
  high : Nat
  den : Nat
  closed : Bool

/-- Below a power of two the neighbouring double is only half as far away. -/
def Interval.of (mantissa : Nat) (exponent : Int) : Interval :=
  let narrow := mantissa == Nat.pow 2 52 && leastExponent < exponent
  let scale (n : Nat) : Nat := n * Nat.pow 2 (exponent - 2).toNat
  { low := scale (4 * mantissa - if narrow then 1 else 2)
    value := scale (4 * mantissa)
    high := scale (4 * mantissa + 2)
    den := Nat.pow 2 (2 - exponent).toNat
    closed := mantissa % 2 == 0 }

def Interval.inUnits (i : Interval) (k : Int) : Interval :=
  let up := Nat.pow 10 (-k).toNat
  { i with low := i.low * up, value := i.value * up, high := i.high * up,
           den := i.den * Nat.pow 10 k.toNat }

def Interval.contains (i : Interval) (n : Nat) : Bool :=
  let p := n * i.den
  if i.closed then i.low ≤ p && p ≤ i.high else i.low < p && p < i.high

/-- The grid point of the interval that is nearest to its value, if it holds one next to it. -/
def Interval.gridPoint? (i : Interval) : Option Nat :=
  let below := i.value / i.den
  let above := below + 1
  match i.contains below, i.contains above with
  | true, true => some (if 2 * (i.value % i.den) < i.den then below else above)
  | true, false => some below
  | false, true => some above
  | false, false => none

/-- `10 ^ t ≤ num / den`. -/
def powerTenLe (t : Int) (num den : Nat) : Bool :=
  Nat.pow 10 t.toNat * den ≤ num * Nat.pow 10 (-t).toNat

def leadingExponent (num den : Nat) : Int :=
  let estimate := ((num.log2 : Int) - den.log2) * 30103 / 100000
  if powerTenLe (estimate + 1) num den then estimate + 1
  else if powerTenLe estimate num den then estimate
  else estimate - 1

def dropTrailingZeros (digits : List Char) : List Char :=
  (digits.reverse.dropWhile (· == '0')).reverse

def Digits.ofNat (n : Nat) (k : Int) : Digits :=
  let all := Nat.toDigits 10 n
  { digits := dropTrailingZeros all, point := all.length + k }

/-- Tries the grids with `count`, `count + 1`, … digits; seventeen digits always suffice. -/
def shortestFrom (i : Interval) (leading : Int) : Nat → Nat → Digits
  | count, 0 => .ofNat (i.value / i.den) (leading - count)
  | count, tries + 1 =>
    let k := leading - count
    match (i.inUnits k).gridPoint? with
    | some n => .ofNat n k
    | none => shortestFrom i leading (count + 1) tries

def shortest (mantissa : Nat) (exponent : Int) : Digits :=
  let i := Interval.of mantissa exponent
  shortestFrom i (leadingExponent i.value i.den) 0 18

end StackScript.Decimal
