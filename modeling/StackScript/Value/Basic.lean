import StackScript.Text.Quoted
import StackScript.Decimal.Layout

set_option autoImplicit false

/-!
# Values

The values that programs compute with. An object is a list of keys and values in the order of their
insertion; any value may be a key. A function value refers to a closure by number; the name is only
for show.

Equality does not convert: values of different kinds differ. It is not reflexive, as a float that is
no number differs from itself.
-/
namespace StackScript

structure FunctionRef where
  id : Nat
  name : String

inductive Value where
  | none
  | bool (value : Bool)
  | int (value : Int64)
  | float (value : Float)
  | char (value : Char)
  | string (value : String)
  | object (entries : List (Value × Value))
  | function (ref : FunctionRef)
deriving Inhabited

namespace Value

mutual

def beq : Value → Value → Bool
  | .none, .none => true
  | .bool a, .bool b => a == b
  | .int a, .int b => a == b
  | .float a, .float b => a == b
  | .char a, .char b => a == b
  | .string a, .string b => a == b
  | .object a, .object b => beqEntries a b
  | .function a, .function b => a.id == b.id
  | _, _ => false
termination_by structural value => value

def beqEntries : List (Value × Value) → List (Value × Value) → Bool
  | [], [] => true
  | (k, v) :: a, (l, w) :: b => k.beq l && v.beq w && beqEntries a b
  | _, _ => false
termination_by structural entries => entries

end

instance : BEq Value := ⟨beq⟩

def isNone : Value → Bool
  | .none => true
  | _ => false

def typeName : Value → String
  | .none => "none"
  | .bool _ => "bool"
  | .int _ => "int"
  | .float _ => "float"
  | .char _ => "char"
  | .string _ => "string"
  | .object _ => "object"
  | .function _ => "function"

def boolText (b : Bool) : String := if b then "true" else "false"

def indent (depth : Nat) : String := String.ofList (List.replicate (2 * depth) ' ')

mutual

/-- The text of a value inside that many objects. A nested object goes on at the indentation of the
line it starts on; a key that is an object is written as if it stood alone. -/
def displayAt (depth : Nat) : Value → String
  | .none => "none"
  | .bool b => boolText b
  | .int i => toString i.toInt
  | .float x => Decimal.Layout.plain.write x
  | .char c => c.toString
  | .string s => s
  | .object [] => "\x7b\x7d"
  | .object (entry :: rest) =>
    "\x7b\n" ++ String.intercalate ",\n" (entryLines depth (entry :: rest)) ++ "\n" ++
      indent depth ++ "\x7d"
  | .function ref => "<fn " ++ ref.name ++ ">"
termination_by structural value => value

def entryLines (depth : Nat) : List (Value × Value) → List String
  | [] => []
  | (key, value) :: rest =>
    (indent (depth + 1) ++ "[" ++ displayAt 0 key ++ "]: " ++ displayAt (depth + 1) value) ::
      entryLines depth rest
termination_by structural entries => entries

end

def display (value : Value) : String := displayAt 0 value

mutual

def detail : Value → String
  | .none => "None"
  | .bool b => "Bool(" ++ boolText b ++ ")"
  | .int i => "Int(" ++ toString i.toInt ++ ")"
  | .float x => "Float(" ++ Decimal.Layout.marked.write x ++ ")"
  | .char c => "Char(" ++ Text.quotedChar c ++ ")"
  | .string s => "String(" ++ Text.quotedString s ++ ")"
  | .object entries =>
    "Object(ObjectValue \x7b entries: [" ++ String.intercalate ", " (entryDetails entries) ++
      "] \x7d)"
  | .function ref => "Function(" ++ Text.quotedString ref.name ++ ")"
termination_by structural value => value

def entryDetails : List (Value × Value) → List String
  | [] => []
  | (key, value) :: rest =>
    ("(" ++ key.detail ++ ", " ++ value.detail ++ ")") :: entryDetails rest
termination_by structural entries => entries

end

end Value

end StackScript
