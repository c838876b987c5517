import StackScript.Tree.Basic

set_option autoImplicit false

/-!
# Trees without places

What a program means depends neither on where its parts stand in the text nor on where the numbers
of its nodes start. `bare` takes the places away and moves the numbers up, so trees that are read
from different texts can be compared. `ids` lists the numbers, those of the parts of a node before
its own.
-/
namespace StackScript

def Node.bare (offset : Nat) (node : Node) : Node := ⟨node.id + offset, default⟩

def Name.bare (name : Name) : Name := ⟨name.text, default⟩

def TypeRef.bare : TypeRef → TypeRef
  | .named name => .named name.bare
  | .union members _ => .union (members.map Name.bare) default

def Parameter.bare (parameter : Parameter) : Parameter :=
  ⟨parameter.name.bare, parameter.type.map TypeRef.bare⟩

namespace Expression

mutual

def bare (offset : Nat) : Expression → Expression
  | .literal node value => .literal (node.bare offset) value
  | .name node text => .name (node.bare offset) text
  | .paren node inner => .paren (node.bare offset) (bare offset inner)
  | .unary node operator operand => .unary (node.bare offset) operator (bare offset operand)
  | .binary node operator left right =>
    .binary (node.bare offset) operator (bare offset left) (bare offset right)
  | .assign node operator target value =>
    .assign (node.bare offset) operator (bare offset target) (bare offset value)
  | .object node properties => .object (node.bare offset) (bareEntries offset properties)
  | .call node callee arguments =>
    .call (node.bare offset) (bare offset callee) (bareList offset arguments)
  | .member node inner label => .member (node.bare offset) (bare offset inner) label.bare
  | .element node inner index =>
    .element (node.bare offset) (bare offset inner) (bare offset index)
  | .hole node => .hole (node.bare offset)
termination_by structural e => e

def bareList (offset : Nat) : List Expression → List Expression
  | [] => []
  | e :: rest => bare offset e :: bareList offset rest
termination_by structural es => es

def bareEntries (offset : Nat) : List (Expression × Expression) → List (Expression × Expression)
  | [] => []
  | (key, value) :: rest => (bare offset key, bare offset value) :: bareEntries offset rest
termination_by structural entries => entries

end

mutual

def ids : Expression → List Nat
  | .literal node _ | .name node _ | .hole node => [node.id]
  | .paren node inner => ids inner ++ [node.id]
  | .unary node _ operand => ids operand ++ [node.id]
  | .binary node _ left right => ids left ++ ids right ++ [node.id]
  | .assign node _ target value => ids target ++ ids value ++ [node.id]
  | .object node properties => entriesIds properties ++ [node.id]
  | .call node callee arguments => ids callee ++ listIds arguments ++ [node.id]
  | .member node inner _ => ids inner ++ [node.id]
  | .element node inner index => ids inner ++ ids index ++ [node.id]
termination_by structural e => e

def listIds : List Expression → List Nat
  | [] => []
  | e :: rest => ids e ++ listIds rest
termination_by structural es => es

def entriesIds : List (Expression × Expression) → List Nat
  | [] => []
  | (key, value) :: rest => ids key ++ ids value ++ entriesIds rest
termination_by structural entries => entries

end

end Expression

namespace Statement

def optionalIds : Option Expression → List Nat
  | some e => e.ids
  | none => []

mutual

def bare (offset : Nat) : Statement → Statement
  | .expression node value => .expression (node.bare offset) (value.bare offset)
  | .letDecl node isMutable name type initial =>
    .letDecl (node.bare offset) isMutable name.bare (type.map TypeRef.bare)
      (initial.map (Expression.bare offset))
  | .fnDecl node name parameters result body =>
    .fnDecl (node.bare offset) name.bare (parameters.map Parameter.bare) (result.map TypeRef.bare)
      (bareList offset body)
  | .block node body => .block (node.bare offset) (bareList offset body)
  | .branch node condition body otherwise =>
    .branch (node.bare offset) (condition.bare offset) (bare offset body)
      (match otherwise with
        | some other => some (bare offset other)
        | none => none)
  | .giveBack node value => .giveBack (node.bare offset) (value.map (Expression.bare offset))
  | .hole node => .hole (node.bare offset)
termination_by structural s => s

def bareList (offset : Nat) : List Statement → List Statement
  | [] => []
  | s :: rest => bare offset s :: bareList offset rest
termination_by structural ss => ss

end

mutual

def ids : Statement → List Nat
  | .expression node value => value.ids ++ [node.id]
  | .letDecl node _ _ _ initial => optionalIds initial ++ [node.id]
  | .fnDecl node _ _ _ body => listIds body ++ [node.id]
  | .block node body => listIds body ++ [node.id]
  | .branch node condition body otherwise =>
    let other := match otherwise with
      | some s => ids s
      | none => []
    condition.ids ++ ids body ++ other ++ [node.id]
  | .giveBack node value => optionalIds value ++ [node.id]
  | .hole node => [node.id]
termination_by structural s => s

def listIds : List Statement → List Nat
  | [] => []
  | s :: rest => ids s ++ listIds rest
termination_by structural ss => ss

end

end Statement

end StackScript
