import Mathlib.Data.List.Forall2
import StackScript.Proofs.Evaluator.Basic

set_option autoImplicit false

/-!
# Widths and operations of generated code

The evaluator counts instructions and names operations without looking at code. Both agree with the
code that is generated: `width` is the length of an expression's code, and each operation of a
binary operator stands for one instruction.
-/
namespace StackScript.Direct

open Generate

def Realises (opcode : Opcode) : Effect → Prop
  | .unary f => opcode.binary? = none ∧ opcode.unary? = some f
  | .binary f => opcode.binary? = some f

theorem realises_effects (operation : BinaryOperation) :
    List.Forall₂ Realises operation.opcodes (effects operation) := by
  have hinvert : Realises .not (.unary inversion) := ⟨rfl, rfl⟩
  cases operation
  case notEqual | greater | greaterOrEqual => exact .cons rfl (.cons hinvert .nil)
  all_goals exact .cons rfl .nil

theorem realises_unaryEffect {operator : UnaryOperator} (hinc : operator ≠ .increment)
    (hdec : operator ≠ .decrement) : Realises (unaryOpcode operator) (unaryEffect operator) := by
  cases operator
  case increment => exact absurd rfl hinc
  case decrement => exact absurd rfl hdec
  all_goals exact ⟨rfl, rfl⟩

theorem realises_increase : Realises .add increase := rfl

theorem realises_decrease : Realises .sub decrease := rfl

theorem length_opcodes (operation : BinaryOperation) :
    operation.opcodes.length = (effects operation).length :=
  (realises_effects operation).length_eq

theorem length_ofLiteral (value : Literal) (origin : Span) : (ofLiteral value origin).length = 1 := by
  cases value <;> rfl

theorem length_stepOf (operand : Expression) (origin : Span) (apply undo : Opcode) :
    (Generate.stepOf operand origin apply undo).length = stepWidth operand := by
  cases operand <;> rfl

mutual

theorem length_ofExpression (bound : BoundTree) :
    (e : Expression) → (ofExpression bound e).length = width bound e
  | .literal node value => length_ofLiteral value node.span
  | .name _ _ => rfl
  | .paren _ inner => length_ofExpression bound inner
  | .unary node operator operand => by
    have hoperand := length_ofExpression bound operand
    cases operator <;>
      simp only [ofExpression, width, length_stepOf, List.length_append, List.length_singleton,
        hoperand]
  | .binary node _ left right => by
    have hleft := length_ofExpression bound left
    have hright := length_ofExpression bound right
    simp only [ofExpression, width]
    cases bound.operation? node with
    | none => rfl
    | some operation => simp [hleft, hright, length_opcodes, Nat.add_assoc]
  | .assign node operator target value => by
    have hvalue := length_ofExpression bound value
    cases target with
    | name targetNode name =>
      cases operator with
      | none => simp [ofExpression, width, hvalue, Nat.add_comm]
      | some operator =>
        simp only [ofExpression, width]
        cases bound.operation? node with
        | none => rfl
        | some operation =>
          simp only [Generate.loadName, List.length_append, List.length_cons, List.length_map,
            List.length_nil, hvalue, length_opcodes]
    | _ => rfl
  | .object _ _ => rfl
  | .call node callee arguments => by
    have hcallee := length_ofExpression bound callee
    have harguments := length_ofExpressions bound arguments
    simp [ofExpression, width, hcallee, harguments, Nat.add_assoc, Nat.add_comm 1]
  | .member node object name => by
    have hobject := length_ofExpression bound object
    simp [ofExpression, width, hobject]
  | .element node object index => by
    have hobject := length_ofExpression bound object
    have hindex := length_ofExpression bound index
    simp [ofExpression, width, hobject, hindex, Nat.add_assoc]
  | .hole _ => rfl
termination_by structural e => e

theorem length_ofExpressions (bound : BoundTree) :
    (es : List Expression) → (ofExpressions bound es).length = widths bound es
  | [] => rfl
  | e :: rest => by
    have hfirst := length_ofExpression bound e
    have hrest := length_ofExpressions bound rest
    simp [ofExpressions, widths, hfirst, hrest]
termination_by structural es => es

end

theorem length_ofOptional (bound : BoundTree) (value : Option Expression) (origin : Span) :
    (ofOptional bound value origin).length = optionalWidth bound value := by
  cases value with
  | none => rfl
  | some e => exact length_ofExpression bound e

mutual

theorem length_ofStatement (bound : BoundTree) (base : Nat) :
    (s : Statement) → (ofStatement bound base s).length = statementWidth bound s
  | .expression _ e => length_ofExpression bound e
  | .letDecl node _ name _ initial => by
    simp [ofStatement, statementWidth, length_ofOptional, Nat.add_comm 1]
  | .fnDecl _ _ _ _ _ => rfl
  | .block node body => by
    have hbody := length_ofStatements bound (base + 1) body
    simp [ofStatement, statementWidth, hbody, Nat.add_comm 1]
  | .branch node condition body none => by
    have hbody := fun base => length_ofStatement bound base body
    simp only [ofStatement, statementWidth, List.length_append, List.length_cons, List.length_nil,
      length_ofExpression, hbody]
    omega
  | .branch node condition body (some other) => by
    have hbody := fun base => length_ofStatement bound base body
    have hother := fun base => length_ofStatement bound base other
    simp only [ofStatement, statementWidth, List.length_append, List.length_cons,
      length_ofExpression, hbody, hother]
    omega
  | .giveBack node value => by simp [ofStatement, statementWidth, length_ofOptional]
  | .hole _ => rfl
termination_by structural s => s

theorem length_ofStatements (bound : BoundTree) (base : Nat) :
    (ss : List Statement) → (ofStatements bound base ss).length = statementsWidth bound ss
  | [] => rfl
  | s :: rest => by
    have hfirst := length_ofStatement bound base s
    have hrest := fun base => length_ofStatements bound base rest
    simp [ofStatements, statementsWidth, hfirst, hrest]
termination_by structural ss => ss

end

end StackScript.Direct
