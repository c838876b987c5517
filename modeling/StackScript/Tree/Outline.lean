import StackScript.Tree.Basic
import StackScript.Text.Outline
import StackScript.Text.Quoted
import StackScript.Decimal.Layout

set_option autoImplicit false

/-!
# Outlines of syntax trees

The outline of a tree names every node and shows its number and its span.
-/
namespace StackScript

open Text (Outline)

namespace Outline

def ofNat (n : Nat) : Outline := .atom (toString n)

def ofText (text : String) : Outline := .atom (Text.quotedString text)

def ofBool (b : Bool) : Outline := .atom (if b then "true" else "false")

def ofSpan (span : Span) : Outline :=
  .record "Span" [("start", ofNat span.start), ("end", ofNat span.stop)]

def ofName (name : Name) : Outline :=
  .record "Identifier" [("name", ofText name.text), ("span", ofSpan name.span)]

def ofTypeName (name : Name) : Outline :=
  .record "TypeRef" [("span", ofSpan name.span), ("kind", .tuple "Named" [ofText name.text])]

def ofTypeRef : TypeRef → Outline
  | .named name => ofTypeName name
  | .union members span =>
    .record "TypeRef" [
      ("span", ofSpan span), ("kind", .tuple "Union" [.list (members.map ofTypeName)])]

def ofLiteral : Literal → Outline
  | .none => .atom "None"
  | .bool b => .tuple "Bool" [ofBool b]
  | .int i => .tuple "Int" [.atom (toString i.toInt)]
  | .float x => .tuple "Float" [.atom (Decimal.Layout.marked.write x)]
  | .char c => .tuple "Char" [.atom (Text.quotedChar c)]
  | .string s => .tuple "String" [ofText s]

def unaryName : UnaryOperator → String
  | .negate => "Negate"
  | .not => "Not"
  | .bitwiseNot => "BitwiseNot"
  | .increment => "Increment"
  | .decrement => "Decrement"

def binaryName : BinaryOperator → String
  | .add => "Add"
  | .subtract => "Subtract"
  | .multiply => "Multiply"
  | .divide => "Divide"
  | .integerDivide => "IntegerDivide"
  | .modulo => "Modulo"
  | .power => "Power"
  | .bitwiseAnd => "BitwiseAnd"
  | .bitwiseOr => "BitwiseOr"
  | .bitwiseXor => "BitwiseXor"
  | .shiftLeft => "ShiftLeft"
  | .shiftRight => "ShiftRight"
  | .logicalAnd => "LogicalAnd"
  | .logicalOr => "LogicalOr"
  | .equal => "Equal"
  | .notEqual => "NotEqual"
  | .less => "Less"
  | .lessEqual => "LessEqual"
  | .greater => "Greater"
  | .greaterEqual => "GreaterEqual"

def ofAssignment : Option BinaryOperator → Outline
  | none => .atom "Assign"
  | some operator => .tuple "Compound" [.atom (binaryName operator)]

def ofNode (name : String) (node : Node) (kind : Outline) : Outline :=
  .record name [
    ("id", .tuple "NodeId" [ofNat node.id]), ("span", ofSpan node.span), ("kind", kind)]

mutual

def ofExpression : Expression → Outline
  | .literal node value => ofNode "Expression" node (.tuple "Literal" [ofLiteral value])
  | .name node name => ofNode "Expression" node (.tuple "Identifier" [ofText name])
  | .paren node inner =>
    ofNode "Expression" node (.tuple "Parenthesized" [ofExpression inner])
  | .unary node operator operand =>
    ofNode "Expression" node (.record "Unary" [
      ("operator", .atom (unaryName operator)), ("operand", ofExpression operand)])
  | .binary node operator left right =>
    ofNode "Expression" node (.record "Binary" [
      ("left", ofExpression left), ("operator", .atom (binaryName operator)),
      ("right", ofExpression right)])
  | .assign node operator target value =>
    ofNode "Expression" node (.record "Assignment" [
      ("target", ofExpression target), ("operator", ofAssignment operator),
      ("value", ofExpression value)])
  | .object node properties =>
    ofNode "Expression" node (.tuple "Object" [.list (ofProperties properties)])
  | .call node callee arguments =>
    ofNode "Expression" node (.record "Invocation" [
      ("callee", ofExpression callee), ("arguments", .list (ofExpressions arguments))])
  | .member node object name =>
    ofNode "Expression" node (.record "Member" [
      ("object", ofExpression object), ("member", ofName name)])
  | .element node object index =>
    ofNode "Expression" node (.record "Element" [
      ("object", ofExpression object), ("index", ofExpression index)])
  | .hole node => ofNode "Expression" node (.atom "NoOp")
termination_by structural e => e

def ofExpressions : List Expression → List Outline
  | [] => []
  | e :: rest => ofExpression e :: ofExpressions rest
termination_by structural es => es

def ofProperties : List (Expression × Expression) → List Outline
  | [] => []
  | (key, value) :: rest =>
    .record "ObjectProperty" [("key", ofExpression key), ("value", ofExpression value)] ::
      ofProperties rest
termination_by structural properties => properties

end

def ofParameter (parameter : Parameter) : Outline :=
  .record "Parameter" [
    ("name", ofName parameter.name), ("type_ref", .option (parameter.type.map ofTypeRef))]

mutual

def ofStatement : Statement → Outline
  | .expression node e => ofNode "Statement" node (.tuple "Expression" [ofExpression e])
  | .letDecl node isMutable name type initial =>
    ofNode "Statement" node (.tuple "Variable" [
      .record "VariableDeclaration" [
        ("name", ofName name), ("mutable", ofBool isMutable),
        ("type_ref", .option (type.map ofTypeRef)),
        ("initializer", .option (initial.map ofExpression))]])
  | .fnDecl node name parameters result body =>
    ofNode "Statement" node (.tuple "Function" [
      .record "FunctionDeclaration" [
        ("name", ofName name), ("parameters", .list (parameters.map ofParameter)),
        ("return_type", .option (result.map ofTypeRef)), ("body", .list (ofStatements body))]])
  | .block node body => ofNode "Statement" node (.tuple "Block" [.list (ofStatements body)])
  | .branch node condition body none =>
    ofNode "Statement" node (.tuple "If" [
      .record "IfStatement" [
        ("condition", ofExpression condition), ("body", ofStatement body),
        ("else_branch", .option none)]])
  | .branch node condition body (some other) =>
    ofNode "Statement" node (.tuple "If" [
      .record "IfStatement" [
        ("condition", ofExpression condition), ("body", ofStatement body),
        ("else_branch", .option (some (ofStatement other)))]])
  | .giveBack node value =>
    ofNode "Statement" node (.tuple "Return" [.option (value.map ofExpression)])
  | .hole node => ofNode "Statement" node (.atom "NoOp")
termination_by structural s => s

def ofStatements : List Statement → List Outline
  | [] => []
  | s :: rest => ofStatement s :: ofStatements rest
termination_by structural ss => ss

end

end Outline

def SyntaxTree.outline (tree : SyntaxTree) : Outline :=
  .record "SyntaxTree" [
    ("statements", .list (Outline.ofStatements tree.statements)),
    ("span", Outline.ofSpan tree.span)]

end StackScript
