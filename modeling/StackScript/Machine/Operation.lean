import StackScript.Code.Basic
import StackScript.Value.Coercion

set_option autoImplicit false

/-!
# Operations on values

What the operator instructions compute. Arithmetic is done on floats, also between integers; only
integer division and the bitwise operators give integers. Equality converts nothing.
-/
namespace StackScript

namespace Operation

def arithmetic (op : Float → Float → Float) (left right : Value) : Except CoercionError Value := do
  let a ← left.toFloat
  let b ← right.toFloat
  return .float (op a b)

def comparison (op : Float → Float → Bool) (left right : Value) : Except CoercionError Value := do
  let a ← left.toFloat
  let b ← right.toFloat
  return .bool (op a b)

def bitwise (op : Int64 → Int64 → Int64) (left right : Value) : Except CoercionError Value := do
  let a ← left.toInteger
  let b ← right.toInteger
  return .int (op a b)

def logical (op : Bool → Bool → Bool) (left right : Value) : Except CoercionError Value := do
  let a ← left.toBool
  let b ← right.toBool
  return .bool (op a b)

def integerDivision (left right : Value) : Except CoercionError Value := do
  let a ← left.toFloat
  let b ← right.toFloat
  if b == 0.0 then throw .divisionByZero
  return .int (← Value.roundFloat .down (a / b))

/-- Only the last six bits of the distance count. -/
def shiftLeft (a b : Int64) : Int64 := a <<< (b &&& 63)

def shiftRight (a b : Int64) : Int64 := a >>> (b &&& 63)

end Operation

open Operation

def Opcode.binary? : Opcode → Option (Value → Value → Except CoercionError Value)
  | .add => some (arithmetic (· + ·))
  | .sub => some (arithmetic (· - ·))
  | .mul => some (arithmetic (· * ·))
  | .div => some (arithmetic (· / ·))
  | .mod => some (arithmetic Decimal.remainder)
  | .pow => some (arithmetic Float.pow)
  | .idiv => some integerDivision
  | .concat => some fun left right => .ok (.string (left.display ++ right.display))
  | .band => some (bitwise (· &&& ·))
  | .bor => some (bitwise (· ||| ·))
  | .bxor => some (bitwise (· ^^^ ·))
  | .bshl => some (bitwise shiftLeft)
  | .bshr => some (bitwise shiftRight)
  | .and => some (logical (· && ·))
  | .or => some (logical (· || ·))
  | .eq => some fun left right => .ok (.bool (left == right))
  | .lt => some (comparison fun a b => decide (a < b))
  | .lte => some (comparison fun a b => decide (a ≤ b))
  | _ => none

def Opcode.unary? : Opcode → Option (Value → Except CoercionError Value)
  | .unm => some fun value => return .float (-(← value.toFloat))
  | .bnot => some fun value => return .int (~~~(← value.toInteger))
  | .not => some fun value => return .bool (!(← value.toBool))
  | _ => none

end StackScript
