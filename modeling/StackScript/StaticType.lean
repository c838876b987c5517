import StackScript.Tree.Basic

set_option autoImplicit false

/-!
# Static types

A type is a primitive one, the type of everything, or a union of types. Checking is lenient: a value
may be stored wherever its type and the expected type overlap.
-/
namespace StackScript

inductive Primitive where
  | int
  | float
  | bool
  | string
  | char
  | none
  | object
  | function
deriving DecidableEq

def Primitive.text : Primitive → String
  | .int => "int"
  | .float => "float"
  | .bool => "bool"
  | .string => "string"
  | .char => "char"
  | .none => "none"
  | .object => "object"
  | .function => "function"

inductive StaticType where
  | primitive (p : Primitive)
  | any
  | union (members : List StaticType)
deriving Inhabited

namespace StaticType

def int : StaticType := .primitive .int
def float : StaticType := .primitive .float
def bool : StaticType := .primitive .bool
def string : StaticType := .primitive .string
def char : StaticType := .primitive .char
def none : StaticType := .primitive .none
def object : StaticType := .primitive .object
def function : StaticType := .primitive .function

def number : StaticType := .union [int, float]

def textual : StaticType := .union [string, char]

def ofName? (name : String) : Option StaticType :=
  match name with
  | "int" => some int
  | "float" => some float
  | "bool" => some bool
  | "string" => some string
  | "char" => some char
  | "none" => some none
  | "object" => some object
  | "function" => some function
  | "number" => some number
  | "any" => some any
  | _ => Option.none

/-- The type that an annotation means; a name that means none counts as everything. -/
def ofRef : TypeRef → StaticType
  | .named name => (ofName? name.text).getD any
  | .union members _ => .union (members.map fun name => (ofName? name.text).getD any)

def unknownNames : TypeRef → List String
  | .named name => if (ofName? name.text).isSome then [] else [name.text]
  | .union members _ =>
    (members.map (·.text)).filter fun name => (ofName? name).isNone

mutual

def text : StaticType → String
  | .primitive p => p.text
  | .any => "any"
  | .union members => String.intercalate " | " (texts members)
termination_by structural type => type

def texts : List StaticType → List String
  | [] => []
  | type :: rest => type.text :: texts rest
termination_by structural types => types

end

mutual

/-- A value of the primitive type `p` may be stored where the type is expected. -/
def admits (p : Primitive) : StaticType → Bool
  | .primitive q => p == q
  | .any => true
  | .union members => anyAdmits p members
termination_by structural type => type

def anyAdmits (p : Primitive) : List StaticType → Bool
  | [] => false
  | type :: rest => admits p type || anyAdmits p rest
termination_by structural types => types

end

def isAny : StaticType → Bool
  | .any => true
  | _ => false

mutual

/-- Values of the type fit where `target` is expected: anything fits everything, and of a union one
fitting member is enough. -/
def fits (target : StaticType) : StaticType → Bool
  | .primitive p => admits p target
  | .any => true
  | .union members => target.isAny || anyFits target members
termination_by structural type => type

def anyFits (target : StaticType) : List StaticType → Bool
  | [] => false
  | type :: rest => fits target type || anyFits target rest
termination_by structural types => types

end

/-- A value of type `actual` may be stored where `expected` is asked for. -/
def isAssignableTo (actual expected : StaticType) : Bool := fits expected actual

end StaticType

end StackScript
