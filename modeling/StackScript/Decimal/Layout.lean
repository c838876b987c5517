import StackScript.Decimal.Shortest

set_option autoImplicit false

/-!
# How doubles are written

Both ways of writing a double use its shortest digits. `Layout.plain` never has an exponent and no
fraction on an integral number; `Layout.marked` always shows a fraction or an exponent, so that the
text is recognizably that of a floating point number.
-/
namespace StackScript.Decimal

/-- `positional` tells for which exponents of the leading digit the number is written out, and
`fraction` what follows the digits of a number that has no fraction. -/
structure Layout where
  positional : Int → Bool
  fraction : List Char

def Layout.plain : Layout := ⟨fun _ => true, []⟩

/-- Numbers from `10 ^ -4` up to `10 ^ 16` are written out. -/
def Layout.marked : Layout := ⟨fun e => -4 ≤ e && e < 16, ['.', '0']⟩

def zeros (n : Int) : List Char := List.replicate n.toNat '0'

def Layout.positionalText (layout : Layout) (d : Digits) : List Char :=
  if d.point ≤ 0 then ['0', '.'] ++ zeros (-d.point) ++ d.digits
  else if d.digits.length ≤ d.point then
    d.digits ++ zeros (d.point - d.digits.length) ++ layout.fraction
  else d.digits.take d.point.toNat ++ '.' :: d.digits.drop d.point.toNat

def exponentText (d : Digits) : List Char :=
  let exponent := d.point - 1
  let fraction := d.digits.drop 1
  d.digits.take 1 ++ (if fraction.isEmpty then [] else '.' :: fraction) ++ 'e' ::
    ((if exponent < 0 then ['-'] else []) ++ Nat.toDigits 10 exponent.natAbs)

def Layout.magnitude (layout : Layout) (mantissa : Nat) (exponent : Int) : List Char :=
  if mantissa == 0 then '0' :: layout.fraction
  else
    let d := shortest mantissa exponent
    if layout.positional (d.point - 1) then layout.positionalText d else exponentText d

def Layout.write (layout : Layout) (x : Float) : String :=
  match Binary64.ofFloat x with
  | .notANumber => "NaN"
  | .infinite negative => if negative then "-inf" else "inf"
  | .finite negative mantissa exponent =>
    String.ofList ((if negative then ['-'] else []) ++ layout.magnitude mantissa exponent)

end StackScript.Decimal
