import StackScript.NameTable
import StackScript.Operator
import StackScript.Diagnostic.Basic
import Std.Data.TreeMap

set_option autoImplicit false

/-!
# What binding finds out

Binding resolves the names and operators of a program. What it finds out about a node is recorded
under the node's number: the static type of an expression, the meaning of its operator, and for a
call the names of the parameters if the function is known.
-/
namespace StackScript

inductive BoundNode where
  | binary (operator : BoundBinary)
  | unary (operator : BoundUnary)
  | call (parameters : List String)

structure BoundTree where
  nodes : Std.TreeMap Nat BoundNode := {}
  types : Std.TreeMap Nat StaticType := {}

namespace BoundTree

def empty : BoundTree := {}

def node? (bound : BoundTree) (id : Nat) : Option BoundNode := bound.nodes[id]?

def type? (bound : BoundTree) (id : Nat) : Option StaticType := bound.types[id]?

def insert (bound : BoundTree) (id : Nat) (node : BoundNode) : BoundTree :=
  { bound with nodes := bound.nodes.insert id node }

def insertType (bound : BoundTree) (id : Nat) (type : StaticType) : BoundTree :=
  { bound with types := bound.types.insert id type }

def size (bound : BoundTree) : Nat := bound.nodes.size

def isEmpty (bound : BoundTree) : Bool := bound.nodes.isEmpty

end BoundTree

structure Signature where
  parameters : List (String × StaticType)
  result : StaticType

/-- What is known of a declared name. Only functions have a signature. -/
structure Declaration where
  type : StaticType
  isMutable : Bool
  signature : Option Signature := none

/-- The declarations of the top level, which outlive the program that made them. -/
abbrev Globals := NameTable Declaration

inductive BindingFault where
  | unknownName (name : String)
  | unknownType (name : String)
  | notMutable (name : String)
  | invalidTarget
  | invalidStepTarget
  | typeMismatch (actual expected : StaticType)
  | noUnaryOperator (operator : UnaryOperator) (operand : StaticType)
  | noBinaryOperator (operator : BinaryOperator) (left right : StaticType)
  | notCallable (type : StaticType)
  | argumentCount (expected actual : Nat)
  | notIndexable (type : StaticType)

def BindingFault.code : BindingFault → DiagnosticCode
  | .unknownName _ | .unknownType _ => .unresolvedName
  | .notMutable _ | .invalidTarget | .invalidStepTarget => .invalidAssignment
  | .typeMismatch _ _ => .typeMismatch
  | .noUnaryOperator _ _ | .noBinaryOperator _ _ _ => .noMatchingOperator
  | .notCallable _ => .notCallable
  | .argumentCount _ _ => .argumentCount
  | .notIndexable _ => .notIndexable

def BindingFault.message : BindingFault → String
  | .unknownName name => s!"Cannot find name '{name}'"
  | .unknownType name => s!"Cannot find type '{name}'"
  | .notMutable name => s!"Cannot assign to '{name}' because it is not mutable"
  | .invalidTarget => "Invalid assignment target"
  | .invalidStepTarget => "The operand of an increment or decrement must be a variable"
  | .typeMismatch actual expected =>
    s!"Type '{actual.text}' is not assignable to type '{expected.text}'"
  | .noUnaryOperator operator operand =>
    s!"Operator '{operator.text}' cannot be applied to type '{operand.text}'"
  | .noBinaryOperator operator left right =>
    s!"Operator '{operator.text}' cannot be applied to types '{left.text}' and '{right.text}'"
  | .notCallable type => s!"Value of type '{type.text}' is not callable"
  | .argumentCount expected actual => s!"Expected {expected} arguments, but got {actual}"
  | .notIndexable type => s!"Value of type '{type.text}' cannot be indexed"

end StackScript
