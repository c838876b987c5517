import StackScript.Source.Span

set_option autoImplicit false

/-!
# Syntax trees

A program is a list of statements. Every statement and every expression carries a number that is its
own within one program, by which later stages attach what they found out about it, and the span of
source text it was read from.
-/
namespace StackScript

/-- The number and the place of a node. Numbers count up without a bound; with a counter of 32 bits,
what rests on their being distinct holds of texts of fewer than 2 ^ 32 nodes. -/
structure Node where
  id : Nat
  span : Span
deriving Inhabited, DecidableEq

structure Name where
  text : String
  span : Span
deriving Inhabited, DecidableEq

/-- A type annotation: one type, or several of which any will do. -/
inductive TypeRef where
  | named (name : Name)
  | union (members : List Name) (span : Span)
deriving DecidableEq

def TypeRef.span : TypeRef → Span
  | .named name => name.span
  | .union _ span => span

inductive Literal where
  | none
  | bool (value : Bool)
  | int (value : Int64)
  | float (value : Float)
  | char (value : Char)
  | string (value : String)

inductive UnaryOperator where
  | negate
  | not
  | bitwiseNot
  | increment
  | decrement
deriving DecidableEq

def UnaryOperator.text : UnaryOperator → String
  | .negate => "-"
  | .not => "!"
  | .bitwiseNot => "~"
  | .increment => "++"
  | .decrement => "--"

inductive BinaryOperator where
  | add
  | subtract
  | multiply
  | divide
  | integerDivide
  | modulo
  | power
  | bitwiseAnd
  | bitwiseOr
  | bitwiseXor
  | shiftLeft
  | shiftRight
  | logicalAnd
  | logicalOr
  | equal
  | notEqual
  | less
  | lessEqual
  | greater
  | greaterEqual
deriving DecidableEq

def BinaryOperator.text : BinaryOperator → String
  | .add => "+"
  | .subtract => "-"
  | .multiply => "*"
  | .divide => "/"
  | .integerDivide => "//"
  | .modulo => "%"
  | .power => "^"
  | .bitwiseAnd => "&"
  | .bitwiseOr => "|"
  | .bitwiseXor => "~"
  | .shiftLeft => "<<"
  | .shiftRight => ">>"
  | .logicalAnd => "&&"
  | .logicalOr => "||"
  | .equal => "=="
  | .notEqual => "!="
  | .less => "<"
  | .lessEqual => "<="
  | .greater => ">"
  | .greaterEqual => ">="

inductive Expression where
  | literal (node : Node) (value : Literal)
  | name (node : Node) (text : String)
  | paren (node : Node) (inner : Expression)
  | unary (node : Node) (operator : UnaryOperator) (operand : Expression)
  | binary (node : Node) (operator : BinaryOperator) (left right : Expression)
  /-- A plain assignment has no operator; `target op= value` has `op`. -/
  | assign (node : Node) (operator : Option BinaryOperator) (target value : Expression)
  | object (node : Node) (properties : List (Expression × Expression))
  | call (node : Node) (callee : Expression) (arguments : List Expression)
  | member (node : Node) (object : Expression) (member : Name)
  | element (node : Node) (object index : Expression)
  /-- Stands where no expression could be read. -/
  | hole (node : Node)
deriving Inhabited

def Expression.node : Expression → Node
  | .literal node _ | .name node _ | .paren node _ | .unary node _ _ | .binary node _ _ _
  | .assign node _ _ _ | .object node _ | .call node _ _ | .member node _ _ | .element node _ _
  | .hole node => node

def Expression.span (e : Expression) : Span := e.node.span

structure Parameter where
  name : Name
  type : Option TypeRef

inductive Statement where
  | expression (node : Node) (value : Expression)
  | letDecl (node : Node) (isMutable : Bool) (name : Name) (type : Option TypeRef)
      (initial : Option Expression)
  | fnDecl (node : Node) (name : Name) (parameters : List Parameter) (result : Option TypeRef)
      (body : List Statement)
  | block (node : Node) (body : List Statement)
  | branch (node : Node) (condition : Expression) (body : Statement) (otherwise : Option Statement)
  | giveBack (node : Node) (value : Option Expression)
  /-- Does nothing. -/
  | hole (node : Node)
deriving Inhabited

def Statement.node : Statement → Node
  | .expression node _ | .letDecl node _ _ _ _ | .fnDecl node _ _ _ _ | .block node _
  | .branch node _ _ _ | .giveBack node _ | .hole node => node

def Statement.span (s : Statement) : Span := s.node.span

structure SyntaxTree where
  statements : List Statement
  span : Span

end StackScript
