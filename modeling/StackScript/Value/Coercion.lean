import StackScript.Value.Basic
import StackScript.Decimal.Reader
import StackScript.Text.Blank

set_option autoImplicit false

/-!
# Conversions between kinds of values

An instruction converts its operands to the kind it works on. Text converts if it spells a value of
that kind; what has no conversion is an error that names the value.
-/
namespace StackScript

inductive CoercionError where
  | unconvertible (value : Value) (target : String)
  | outOfRange (value : Float)
  | divisionByZero

def CoercionError.message : CoercionError → String
  | .unconvertible value target => s!"cannot convert {value.typeName} '{value.display}' to {target}"
  | .outOfRange value => s!"{(Value.float value).display} is out of range for int"
  | .divisionByZero => "division by zero"

namespace Value

def toFloat (value : Value) : Except CoercionError Float :=
  match value with
  | .none => .ok 0.0
  | .bool b => .ok (if b then 1.0 else 0.0)
  | .int i => .ok i.toFloat
  | .float x => .ok x
  | .string s =>
    match Decimal.readFloat? (Text.trim s.toList) with
    | some x => .ok x
    | Option.none => .error (.unconvertible value "float")
  | _ => .error (.unconvertible value "float")

def roundFloat (rounding : Decimal.Rounding) (x : Float) : Except CoercionError Int64 :=
  match Decimal.toInt64? rounding x with
  | some i => .ok i
  | Option.none => .error (.outOfRange x)

/-- Floats go to the nearest integer, halves to the even one; characters to their code point. -/
def toInteger (value : Value) : Except CoercionError Int64 :=
  match value with
  | .none => .ok 0
  | .bool b => .ok (if b then 1 else 0)
  | .int i => .ok i
  | .char c => .ok (Int64.ofNat c.toNat)
  | .float x => roundFloat .halfEven x
  | .string s =>
    match Decimal.readInt64? (Text.trim s.toList) with
    | some i => .ok i
    | Option.none => .error (.unconvertible value "int")
  | _ => .error (.unconvertible value "int")

/-- Numbers are true unless they are zero, and text is true or false in letters of either case. -/
def toBool (value : Value) : Except CoercionError Bool :=
  match value with
  | .none => .ok false
  | .bool b => .ok b
  | .int i => .ok (i != 0)
  | .float x => .ok (x != 0.0)
  | .string s =>
    let word := s.toList.map Char.toLower
    if word == ['t', 'r', 'u', 'e'] then .ok true
    else if word == ['f', 'a', 'l', 's', 'e'] then .ok false
    else .error (.unconvertible value "bool")
  | _ => .error (.unconvertible value "bool")

end Value

end StackScript
