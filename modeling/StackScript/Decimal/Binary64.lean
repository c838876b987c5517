set_option autoImplicit false

/-!
# Doubles as exact binary fractions

A double is not a number, an infinity, or a signed fraction `mantissa * 2 ^ exponent`. On fractions
the operations that need no rounding (remainder, rounding to an integer) are exact arithmetic on
natural numbers, and `nearest` is the single place where a ratio is rounded to a double: to the
nearest one, a tie to the one with the even mantissa.

Powers are written with `Nat.pow`, so that they are the same function whatever else is imported.
-/
namespace StackScript.Decimal

inductive Binary64 where
  | notANumber
  | infinite (negative : Bool)
  | finite (negative : Bool) (mantissa : Nat) (exponent : Int)

/-- The least exponent of a double, that of the subnormal ones. -/
def leastExponent : Int := -1074

def Binary64.ofFloat (x : Float) : Binary64 :=
  let bits := x.toBits.toNat
  let negative := bits / Nat.pow 2 63 == 1
  let biased : Nat := bits / Nat.pow 2 52 % Nat.pow 2 11
  let fraction := bits % Nat.pow 2 52
  if biased == 2047 then
    if fraction == 0 then .infinite negative else .notANumber
  else if biased == 0 then .finite negative fraction leastExponent
  else .finite negative (Nat.pow 2 52 + fraction) ((biased : Int) - 1075)

/-- `num / den` rounded to an integer, a tie to the even neighbour. -/
def roundHalfEven (num den : Nat) : Nat :=
  let quotient := num / den
  let twice := 2 * (num % den)
  if twice < den || (twice == den && quotient % 2 == 0) then quotient else quotient + 1

/-- `num * 2 ^ e` and `den` as a ratio of natural numbers. -/
def scaleTwo (num den : Nat) (e : Int) : Nat × Nat :=
  if 0 ≤ e then (num * Nat.pow 2 e.toNat, den) else (num, den * Nat.pow 2 (-e).toNat)

/-- The exponent of the double nearest to a positive ratio, before a carry of the rounding. -/
def nearestExponent (num den : Nat) : Int :=
  let estimate : Int := (num.log2 : Int) - den.log2
  let (n, d) := scaleTwo num den (-estimate)
  let magnitude := if n < d then estimate - 1 else estimate
  max leastExponent (magnitude - 52)

/-- The bits of the double nearest to `num / den` without its sign; all larger ratios are
infinite. -/
def nearestBits (num den : Nat) : Nat :=
  if num == 0 then 0
  else
    let exponent := nearestExponent num den
    let (n, d) := scaleTwo num den (-exponent)
    let mantissa := roundHalfEven n d
    let bits := (exponent - leastExponent).toNat * Nat.pow 2 52 + mantissa
    min bits (2047 * Nat.pow 2 52)

def signBit (negative : Bool) : Nat := if negative then Nat.pow 2 63 else 0

def nearest (negative : Bool) (num den : Nat) : Float :=
  Float.ofBits (signBit negative + nearestBits num den).toUInt64

def infinity (negative : Bool) : Float :=
  Float.ofBits (signBit negative + 2047 * Nat.pow 2 52).toUInt64

def notANumber : Float := Float.ofBits (2047 * Nat.pow 2 52 + Nat.pow 2 51).toUInt64

/-- The remainder of the division that truncates, with the sign of the dividend. It is exact. -/
def remainder (x y : Float) : Float :=
  match Binary64.ofFloat x, Binary64.ofFloat y with
  | .finite _ _ _, .infinite _ => x
  | .finite negative m e, .finite _ m' e' =>
    if m' == 0 then notANumber
    else
      let least := min e e'
      let rest := (m * Nat.pow 2 (e - least).toNat) % (m' * Nat.pow 2 (e' - least).toNat)
      let (num, den) := scaleTwo rest 1 least
      nearest negative num den
  | _, _ => notANumber

inductive Rounding where
  | down
  | halfEven
  | towardZero

def Rounding.apply : Rounding → Bool → Nat → Nat → Int
  | .down, true, num, den => -((num + (den - 1)) / den : Nat)
  | .down, false, num, den => (num / den : Nat)
  | .halfEven, negative, num, den =>
    if negative then -(roundHalfEven num den) else roundHalfEven num den
  | .towardZero, negative, num, den =>
    if negative then -(num / den : Nat) else (num / den : Nat)

def fitInt64? (n : Int) : Option Int64 :=
  if Int64.minValue.toInt ≤ n && n ≤ Int64.maxValue.toInt then some (Int64.ofInt n) else none

def toInt64? (rounding : Rounding) (x : Float) : Option Int64 :=
  match Binary64.ofFloat x with
  | .finite negative m e =>
    let (num, den) := scaleTwo m 1 e
    fitInt64? (rounding.apply negative num den)
  | _ => none

end StackScript.Decimal
