import StackScript.Code.Basic
import StackScript.Binding.Basic

set_option autoImplicit false

/-!
# Code for a program

The code of an expression leaves its value on the stack; where binding found no meaning for an
operator, an instruction that does nothing stands in its place, and `gaps` reports that. The code of
a statement depends on the index at which it starts, as jumps have absolute targets; all of them
lead forward. Code ends with an exit instruction, so that a jump to its end is one to an
instruction.
-/
namespace StackScript

def BinaryOperation.opcodes : BinaryOperation → List Opcode
  | .addition => [.add]
  | .subtraction => [.sub]
  | .multiplication => [.mul]
  | .division => [.div]
  | .integerDivision => [.idiv]
  | .modulo => [.mod]
  | .power => [.pow]
  | .concatenation => [.concat]
  | .bitwiseAnd => [.band]
  | .bitwiseOr => [.bor]
  | .bitwiseXor => [.bxor]
  | .shiftLeft => [.bshl]
  | .shiftRight => [.bshr]
  | .logicalAnd => [.and]
  | .logicalOr => [.or]
  | .equal => [.eq]
  | .notEqual => [.eq, .not]
  | .less => [.lt]
  | .lessOrEqual => [.lte]
  | .greater => [.lte, .not]
  | .greaterOrEqual => [.lt, .not]

def BoundTree.operation? (bound : BoundTree) (node : Node) : Option BinaryOperation :=
  match bound.node? node.id with
  | some (.binary row) => some row.operation
  | _ => none

def BoundTree.parameters (bound : BoundTree) (node : Node) : List String :=
  match bound.node? node.id with
  | some (.call parameters) => parameters
  | _ => []

inductive CodeFault where
  | unresolvedOperator
  | invalidTarget
  | invalidStepTarget

def CodeFault.message : CodeFault → String
  | .unresolvedOperator => "operator could not be resolved"
  | .invalidTarget => "assignment target must be a variable"
  | .invalidStepTarget => "increment and decrement require a variable operand"

def CodeFault.diagnostic (fault : CodeFault) (span : Span) : Diagnostic :=
  ⟨.unsupportedOperator, .error, fault.message, span⟩

namespace Generate

open Instruction (plain push store)

def ofLiteral (value : Literal) (origin : Span) : Code :=
  match value with
  | .none => [plain .pushNone origin]
  | .bool b => [push (.bool b) origin]
  | .int i => [push (.int i) origin]
  | .float x => [push (.float x) origin]
  | .char c => [push (.char c) origin]
  | .string s => [push (.string s) origin]

def pushName (name : String) (origin : Span) : Instruction := push (.string name) origin

def loadName (name : String) (origin : Span) : Code := [pushName name origin, plain .load origin]

/-- A step stores the changed value and then takes the change back on the stack only. -/
def step (name : String) (target origin : Span) (apply undo : Opcode) : Code :=
  pushName name target :: loadName name target ++
    [push (.int 1) origin, plain apply origin, store true origin, push (.int 1) origin,
      plain undo origin]

def unaryOpcode : UnaryOperator → Opcode
  | .negate => .unm
  | .not => .not
  | _ => .bnot

def stepOf (operand : Expression) (origin : Span) (apply undo : Opcode) : Code :=
  match operand with
  | .name target name => step name target.span origin apply undo
  | _ => [plain .noop origin]

mutual

def ofExpression (bound : BoundTree) : Expression → Code
  | .literal node value => ofLiteral value node.span
  | .name node name => loadName name node.span
  | .paren _ inner => ofExpression bound inner
  | .unary node operator operand =>
    match operator with
    | .increment => stepOf operand node.span .add .sub
    | .decrement => stepOf operand node.span .sub .add
    | operator => ofExpression bound operand ++ [plain (unaryOpcode operator) node.span]
  | .binary node _ left right =>
    match bound.operation? node with
    | none => [plain .noop node.span]
    | some operation =>
      ofExpression bound left ++ ofExpression bound right ++
        operation.opcodes.map (plain · node.span)
  | .assign node operator target value =>
    match target with
    | .name targetNode name =>
      match operator with
      | none => pushName name targetNode.span :: ofExpression bound value ++ [store true node.span]
      | some _ =>
        match bound.operation? node with
        | none => [plain .noop node.span]
        | some operation =>
          pushName name targetNode.span :: loadName name targetNode.span ++
            ofExpression bound value ++ operation.opcodes.map (plain · node.span) ++
            [store true node.span]
    | _ => [plain .noop target.span]
  | .object node properties =>
    [.mk .pushObject (some (.entries (ofProperties bound properties))) node.span]
  | .call node callee arguments =>
    let argumentCode := ofExpressions bound arguments
    ofExpression bound callee ++
      .mk .call (some (.call argumentCode.length (bound.parameters node))) node.span :: argumentCode
  | .member node object name =>
    ofExpression bound object ++ [pushName name.text name.span, plain .index node.span]
  | .element node object index =>
    ofExpression bound object ++ ofExpression bound index ++ [plain .index node.span]
  | .hole node => [plain .noop node.span]
termination_by structural e => e

def ofExpressions (bound : BoundTree) : List Expression → Code
  | [] => []
  | e :: rest => ofExpression bound e ++ ofExpressions bound rest
termination_by structural es => es

/-- A key that is a bare name stands for itself. -/
def ofProperties (bound : BoundTree) : List (Expression × Expression) → List (Code × Code)
  | [] => []
  | (key, value) :: rest =>
    let keyCode := match key with
      | .name node name => [pushName name node.span]
      | key => ofExpression bound key
    (keyCode, ofExpression bound value) :: ofProperties bound rest
termination_by structural properties => properties

end

def ofOptional (bound : BoundTree) (value : Option Expression) (origin : Span) : Code :=
  match value with
  | some e => ofExpression bound e
  | none => [plain .pushNone origin]

mutual

/-- The code of a statement that starts at index `base`. -/
def ofStatement (bound : BoundTree) (base : Nat) : Statement → Code
  | .expression _ e => ofExpression bound e
  | .letDecl node _ name _ initial =>
    pushName name.text name.span :: ofOptional bound initial node.span ++ [store false node.span]
  | .fnDecl node name parameters _ body =>
    let bodyCode := ofStatements bound 0 body ++ [plain .exit node.span]
    [pushName name.text name.span,
      .mk .proc (some (.proc name.text (parameters.map (·.name.text)) bodyCode)) node.span,
      store false node.span]
  | .block node body =>
    plain .beginScope node.span :: ofStatements bound (base + 1) body ++
      [plain .endScope node.span]
  | .branch node condition body otherwise =>
    let test := ofExpression bound condition
    let other := match otherwise with
      | some s => ofStatement bound (base + test.length + 1) s
      | none => []
    let start := base + test.length + 1 + other.length + 1
    let taken := ofStatement bound start body
    test ++ .jump .jnz start node.span :: other ++
      .jump .jmp (start + taken.length) node.span :: taken
  | .giveBack node value => ofOptional bound value node.span ++ [plain .giveBack node.span]
  | .hole node => [plain .noop node.span]
termination_by structural s => s

def ofStatements (bound : BoundTree) (base : Nat) : List Statement → Code
  | [] => []
  | s :: rest =>
    let code := ofStatement bound base s
    code ++ ofStatements bound (base + code.length) rest
termination_by structural ss => ss

end

def stepGaps (operand : Expression) (origin : Span) : List Diagnostic :=
  match operand with
  | .name _ _ => []
  | _ => [CodeFault.invalidStepTarget.diagnostic origin]

mutual

/-- The parts of an expression for which there is no code, in the order of the code. -/
def gaps (bound : BoundTree) : Expression → List Diagnostic
  | .literal _ _ | .name _ _ | .hole _ => []
  | .paren _ inner => gaps bound inner
  | .unary node operator operand =>
    match operator with
    | .increment | .decrement => stepGaps operand node.span
    | _ => gaps bound operand
  | .binary node _ left right =>
    match bound.operation? node with
    | none => [CodeFault.unresolvedOperator.diagnostic node.span]
    | some _ => gaps bound left ++ gaps bound right
  | .assign node operator target value =>
    match target with
    | .name _ _ =>
      match operator, bound.operation? node with
      | some _, none => [CodeFault.unresolvedOperator.diagnostic node.span]
      | _, _ => gaps bound value
    | _ => [CodeFault.invalidTarget.diagnostic target.span]
  | .object _ properties => propertyGaps bound properties
  | .call _ callee arguments => gaps bound callee ++ listGaps bound arguments
  | .member _ object _ => gaps bound object
  | .element _ object index => gaps bound object ++ gaps bound index
termination_by structural e => e

def listGaps (bound : BoundTree) : List Expression → List Diagnostic
  | [] => []
  | e :: rest => gaps bound e ++ listGaps bound rest
termination_by structural es => es

def propertyGaps (bound : BoundTree) : List (Expression × Expression) → List Diagnostic
  | [] => []
  | (key, value) :: rest => gaps bound key ++ gaps bound value ++ propertyGaps bound rest
termination_by structural properties => properties

end

def optionalGaps (bound : BoundTree) : Option Expression → List Diagnostic
  | some e => gaps bound e
  | none => []

mutual

/-- The code of the other branch comes before that of the body. -/
def statementGaps (bound : BoundTree) : Statement → List Diagnostic
  | .expression _ e => gaps bound e
  | .letDecl _ _ _ _ initial => optionalGaps bound initial
  | .fnDecl _ _ _ _ body => statementsGaps bound body
  | .block _ body => statementsGaps bound body
  | .branch _ condition body otherwise =>
    let other := match otherwise with
      | some s => statementGaps bound s
      | none => []
    gaps bound condition ++ other ++ statementGaps bound body
  | .giveBack _ value => optionalGaps bound value
  | .hole _ => []
termination_by structural s => s

def statementsGaps (bound : BoundTree) : List Statement → List Diagnostic
  | [] => []
  | s :: rest => statementGaps bound s ++ statementsGaps bound rest
termination_by structural ss => ss

end

end Generate

def SyntaxTree.code (tree : SyntaxTree) (bound : BoundTree) : Code :=
  Generate.ofStatements bound 0 tree.statements ++ [.plain .exit tree.span]

def SyntaxTree.gaps (tree : SyntaxTree) (bound : BoundTree) : List Diagnostic :=
  Generate.statementsGaps bound tree.statements

end StackScript
