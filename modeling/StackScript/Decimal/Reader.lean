import StackScript.Decimal.Binary64

set_option autoImplicit false

/-!
# Reading numbers

Integers are an optional sign and digits. Doubles are an optional sign and either a word for an
infinity or for no number, or digits with an optional point and an optional exponent; they are
rounded to the nearest double. No reader skips blanks.
-/
namespace StackScript.Decimal

def digitValue (c : Char) : Nat :=
  if c.isDigit then c.toNat - '0'.toNat
  else if c.isUpper then c.toNat - 'A'.toNat + 10
  else if c.isLower then c.toNat - 'a'.toNat + 10
  else 36

/-- A digit of the given radix, letters of either case counting on from ten. -/
def isDigitOf (radix : Nat) (c : Char) : Bool := digitValue c < radix

def valueOf (radix : Nat) (digits : List Char) : Nat :=
  digits.foldl (fun n c => n * radix + digitValue c) 0

def splitSign : List Char → Bool × List Char
  | '-' :: rest => (true, rest)
  | '+' :: rest => (false, rest)
  | text => (false, text)

def digits? (text : List Char) : Option Nat :=
  if text.isEmpty || !text.all (isDigitOf 10) then none else some (valueOf 10 text)

def readInt64? (text : List Char) : Option Int64 := do
  let (negative, rest) := splitSign text
  let n ← digits? rest
  fitInt64? (if negative then -(n : Int) else n)

/-- An unsigned 64-bit integer, which takes a plus sign but no minus sign. -/
def readUnsigned? (text : List Char) : Option Nat := do
  let n ← digits? (match text with | '+' :: rest => rest | _ => text)
  if n < UInt64.size then some n else none

/-- The double nearest to `digits * 10 ^ e`. Far out of the range of doubles, where the powers of
ten would only be large, the answer is an infinity or zero. -/
def ofDecimal (negative : Bool) (digits : Nat) (e : Int) : Float :=
  let magnitude : Int := (Nat.toDigits 10 digits).length + e
  if digits == 0 || magnitude < -330 then nearest negative 0 1
  else if 310 < magnitude then infinity negative
  else nearest negative (digits * Nat.pow 10 e.toNat) (Nat.pow 10 (-e).toNat)

def readExponent? : List Char → Option Int
  | [] => some 0
  | c :: rest =>
    if c == 'e' || c == 'E' then do
      let (negative, digits) := splitSign rest
      let n ← digits? digits
      return if negative then -(n : Int) else n
    else none

def readDecimal? (negative : Bool) (text : List Char) : Option Float := do
  let whole := text.takeWhile (isDigitOf 10)
  let afterWhole := text.dropWhile (isDigitOf 10)
  let (fraction, rest) := match afterWhole with
    | '.' :: after => (after.takeWhile (isDigitOf 10), after.dropWhile (isDigitOf 10))
    | _ => ([], afterWhole)
  if whole.isEmpty && fraction.isEmpty then none
  else
    let e ← readExponent? rest
    some (ofDecimal negative (valueOf 10 (whole ++ fraction)) (e - fraction.length))

def readFloat? (text : List Char) : Option Float :=
  let (negative, rest) := splitSign text
  match String.ofList (rest.map Char.toLower) with
  | "nan" => some notANumber
  | "inf" => some (infinity negative)
  | "infinity" => some (infinity negative)
  | _ => readDecimal? negative rest

end StackScript.Decimal
