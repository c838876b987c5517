import StackScript.StaticType

set_option autoImplicit false

/-!
# What an operator means for operands of given types

A binary operator is resolved by a table: the first row for its symbol whose operand types accept
the types at hand. A unary operator has one meaning, which its operand's type fits or not.
-/
namespace StackScript

inductive BinaryOperation where
  | addition
  | subtraction
  | multiplication
  | division
  | integerDivision
  | modulo
  | power
  | concatenation
  | bitwiseAnd
  | bitwiseOr
  | bitwiseXor
  | shiftLeft
  | shiftRight
  | logicalAnd
  | logicalOr
  | equal
  | notEqual
  | less
  | lessOrEqual
  | greater
  | greaterOrEqual
deriving DecidableEq

structure BoundBinary where
  operator : BinaryOperator
  operation : BinaryOperation
  left : StaticType
  right : StaticType
  result : StaticType

namespace BoundBinary

open StaticType

/-- The rows in the order in which they are tried: operands of any type are added as numbers. -/
def table : List BoundBinary := [
  ⟨.add, .addition, number, number, number⟩,
  ⟨.add, .concatenation, textual, textual, string⟩,
  ⟨.subtract, .subtraction, number, number, number⟩,
  ⟨.multiply, .multiplication, number, number, number⟩,
  ⟨.divide, .division, number, number, number⟩,
  ⟨.integerDivide, .integerDivision, number, number, int⟩,
  ⟨.modulo, .modulo, number, number, number⟩,
  ⟨.power, .power, number, number, number⟩,
  ⟨.bitwiseAnd, .bitwiseAnd, int, int, int⟩,
  ⟨.bitwiseOr, .bitwiseOr, int, int, int⟩,
  ⟨.bitwiseXor, .bitwiseXor, int, int, int⟩,
  ⟨.shiftLeft, .shiftLeft, int, int, int⟩,
  ⟨.shiftRight, .shiftRight, int, int, int⟩,
  ⟨.logicalAnd, .logicalAnd, bool, bool, bool⟩,
  ⟨.logicalOr, .logicalOr, bool, bool, bool⟩,
  ⟨.equal, .equal, any, any, bool⟩,
  ⟨.notEqual, .notEqual, any, any, bool⟩,
  ⟨.less, .less, number, number, bool⟩,
  ⟨.lessEqual, .lessOrEqual, number, number, bool⟩,
  ⟨.greater, .greater, number, number, bool⟩,
  ⟨.greaterEqual, .greaterOrEqual, number, number, bool⟩]

def accepts (row : BoundBinary) (operator : BinaryOperator) (left right : StaticType) : Bool :=
  row.operator == operator && left.isAssignableTo row.left && right.isAssignableTo row.right

def resolve? (operator : BinaryOperator) (left right : StaticType) : Option BoundBinary :=
  table.find? (·.accepts operator left right)

end BoundBinary

structure BoundUnary where
  operator : UnaryOperator
  operand : StaticType
  result : StaticType

namespace BoundUnary

open StaticType

def row : UnaryOperator → BoundUnary
  | .negate => ⟨.negate, number, number⟩
  | .not => ⟨.not, bool, bool⟩
  | .bitwiseNot => ⟨.bitwiseNot, int, int⟩
  | .increment => ⟨.increment, number, number⟩
  | .decrement => ⟨.decrement, number, number⟩

def resolve? (operator : UnaryOperator) (operand : StaticType) : Option BoundUnary :=
  if operand.isAssignableTo (row operator).operand then some (row operator) else Option.none

end BoundUnary

end StackScript
