import StackScript.Binding.Basic

set_option autoImplicit false

/-!
# Binding a program

The walk goes through the tree once, in the order of the source, with a stack of tables of
declarations, innermost first. It reports what does not bind and goes on; an expression that does
not bind has any type.
-/
namespace StackScript

/-- The tables of the open scopes, the declared result types of the functions around, what was
recorded and what was reported. -/
structure Binder where
  scopes : List (NameTable Declaration)
  results : List (Option StaticType) := []
  bound : BoundTree := {}
  diagnostics : Array Diagnostic := #[]

abbrev BindM := StateM Binder

namespace BindM

def report (fault : BindingFault) (span : Span) : BindM Unit :=
  modify fun b => { b with
    diagnostics := b.diagnostics.push ⟨fault.code, .error, fault.message, span⟩ }

def lookup (name : String) : BindM (Option Declaration) :=
  return (← get).scopes.findSome? (·.get? name)

def declare (name : String) (declaration : Declaration) : BindM Unit :=
  modify fun b => match b.scopes with
    | [] => b
    | scope :: outer => { b with scopes := scope.insert name declaration :: outer }

def openScope (scope : NameTable Declaration) : BindM Unit :=
  modify fun b => { b with scopes := scope :: b.scopes }

def closeScope : BindM Unit := modify fun b => { b with scopes := b.scopes.tail }

def openFunction (result : Option StaticType) : BindM Unit :=
  modify fun b => { b with results := result :: b.results }

def closeFunction : BindM Unit := modify fun b => { b with results := b.results.tail }

def record (id : Nat) (node : BoundNode) : BindM Unit :=
  modify fun b => { b with bound := b.bound.insert id node }

def typed (node : Node) (type : StaticType) : BindM StaticType := do
  modify fun b => { b with bound := b.bound.insertType node.id type }
  return type

def checkAssignable (actual expected : StaticType) (span : Span) : BindM Unit := do
  if !actual.isAssignableTo expected then report (.typeMismatch actual expected) span

def checkIndexable (type : StaticType) (span : Span) : BindM Unit := do
  if !StaticType.object.isAssignableTo type then report (.notIndexable type) span

def checkStepTarget : Expression → BindM Unit
  | .name node name => do
    match ← lookup name with
    | some declaration => if !declaration.isMutable then report (.notMutable name) node.span
    | none => return ()
  | target => report .invalidStepTarget target.span

def resolveType (ref : TypeRef) : BindM StaticType := do
  (StaticType.unknownNames ref).forM fun name => report (.unknownType name) ref.span
  return .ofRef ref

def resolveType? : Option TypeRef → BindM (Option StaticType)
  | none => return none
  | some ref => some <$> resolveType ref

def bindBinary (node : Node) (operator : BinaryOperator) (left right : StaticType) :
    BindM (Option StaticType) := do
  match BoundBinary.resolve? operator left right with
  | some row =>
    record node.id (.binary row)
    return some row.result
  | none =>
    report (.noBinaryOperator operator left right) node.span
    return none

def literalType : Literal → StaticType
  | .none => .none
  | .bool _ => .bool
  | .int _ => .int
  | .float _ => .float
  | .char _ => .char
  | .string _ => .string

def checkArguments : List (String × StaticType) → List (StaticType × Span) → BindM Unit
  | (_, expected) :: parameters, (actual, span) :: arguments => do
    checkAssignable actual expected span
    checkArguments parameters arguments
  | _, _ => return ()

def signature? : Expression → BindM (Option Signature)
  | .name _ name => return (← lookup name).bind (·.signature)
  | _ => return none

/-- Binds a call whose callee and arguments are bound; the callee has the given type. -/
def bindCall (node : Node) (callee : Expression) (type : StaticType)
    (arguments : List (StaticType × Span)) : BindM StaticType := do
  match ← signature? callee with
  | none =>
    match type with
    | .any | .primitive .function => pure ()
    | _ => report (.notCallable type) callee.span
    record node.id (.call [])
    return .any
  | some signature =>
    if signature.parameters.length != arguments.length then
      report (.argumentCount signature.parameters.length arguments.length) node.span
    checkArguments signature.parameters arguments
    record node.id (.call (signature.parameters.map (·.1)))
    return signature.result

def bindAssignment (node : Node) (operator : Option BinaryOperator) (target : Node) (name : String)
    (value : StaticType) (span : Span) : BindM StaticType := do
  match ← lookup name with
  | none =>
    report (.unknownName name) target.span
    return value
  | some declaration =>
    let _ ← typed target declaration.type
    if !declaration.isMutable then report (.notMutable name) target.span
    let result ← match operator with
      | none => pure (some value)
      | some operator => bindBinary node operator declaration.type value
    match result with
    | none => return declaration.type
    | some result =>
      checkAssignable result declaration.type span
      return result

mutual

def expression : Expression → BindM StaticType
  | .literal node value => typed node (literalType value)
  | .name node name => do
    match ← lookup name with
    | some declaration => typed node declaration.type
    | none =>
      report (.unknownName name) node.span
      typed node .any
  | .paren node inner => do
    let type ← expression inner
    typed node type
  | .unary node operator operand => do
    let type ← expression operand
    if operator == .increment || operator == .decrement then checkStepTarget operand
    match BoundUnary.resolve? operator type with
    | some row =>
      record node.id (.unary row)
      typed node row.result
    | none =>
      report (.noUnaryOperator operator type) node.span
      typed node .any
  | .binary node operator left right => do
    let leftType ← expression left
    let rightType ← expression right
    let result ← bindBinary node operator leftType rightType
    typed node (result.getD .any)
  | .assign node operator target value => do
    let valueType ← expression value
    match target with
    | .name targetNode name =>
      let type ← bindAssignment node operator targetNode name valueType value.span
      typed node type
    | _ =>
      report .invalidTarget target.span
      let _ ← expression target
      typed node valueType
  | .object node entries => do
    properties entries
    typed node .object
  | .call node callee arguments => do
    let type ← expression callee
    let types ← expressions arguments
    let result ← bindCall node callee type types
    typed node result
  | .member node object _ => do
    let type ← expression object
    checkIndexable type object.span
    typed node .any
  | .element node object index => do
    let type ← expression object
    let _ ← expression index
    checkIndexable type object.span
    typed node .any
  | .hole node => typed node .any
termination_by structural e => e

def expressions : List Expression → BindM (List (StaticType × Span))
  | [] => return []
  | e :: rest => do
    let type ← expression e
    let types ← expressions rest
    return (type, e.span) :: types
termination_by structural es => es

/-- A key that is a bare name stands for itself and is not looked up. -/
def properties : List (Expression × Expression) → BindM Unit
  | [] => return ()
  | (key, value) :: rest => do
    match key with
    | .name _ _ => pure ()
    | _ => let _ ← expression key
    let _ ← expression value
    properties rest
termination_by structural entries => entries

end

/-- A variable that starts as `none` without an annotation may hold anything later. -/
def variableType (annotated value : Option StaticType) : StaticType :=
  match annotated, value with
  | some type, _ => type
  | none, some (.primitive .none) => .any
  | none, none => .any
  | none, some type => type

def letDeclaration (isMutable : Bool) (name : Name) (type : Option TypeRef)
    (initial : Option Expression) : BindM Unit := do
  let value ← match initial with
    | some e => some <$> expression e
    | none => pure none
  let annotated ← resolveType? type
  match initial, value, annotated with
  | some e, some actual, some expected => checkAssignable actual expected e.span
  | _, _, _ => pure ()
  declare name.text { type := variableType annotated value, isMutable }

def parameterTypes : List Parameter → BindM (List (String × StaticType))
  | [] => return []
  | parameter :: rest => do
    let type ← resolveType? parameter.type
    let types ← parameterTypes rest
    return (parameter.name.text, type.getD .any) :: types

def checkResult (type : StaticType) (span : Span) : BindM Unit := do
  match (← get).results with
  | some expected :: _ => checkAssignable type expected span
  | _ => return ()

mutual

def statement : Statement → BindM Unit
  | .expression _ e => do let _ ← expression e
  | .letDecl _ isMutable name type initial => letDeclaration isMutable name type initial
  | .fnDecl _ name parameters result body => do
    let types ← parameterTypes parameters
    let resultType ← resolveType? result
    -- The name is declared before the body, so that the function can call itself.
    declare name.text {
      type := .function
      isMutable := false
      signature := some { parameters := types, result := resultType.getD .any } }
    openScope (.ofList (types.map fun (name, type) => (name, { type, isMutable := true })))
    openFunction resultType
    statements body
    closeFunction
    closeScope
  | .block _ body => do
    openScope .empty
    statements body
    closeScope
  | .branch _ condition body otherwise => do
    let _ ← expression condition
    statement body
    match otherwise with
    | some other => statement other
    | none => pure ()
  | .giveBack node value => do
    let type ← match value with
      | some e => expression e
      | none => pure .none
    checkResult type node.span
  | .hole _ => return ()
termination_by structural s => s

def statements : List Statement → BindM Unit
  | [] => return ()
  | s :: rest => do
    statement s
    statements rest
termination_by structural ss => ss

end

end BindM

/-- A bound program: what was recorded, the globals after it, and what was reported. -/
structure Binding where
  bound : BoundTree
  globals : Globals
  diagnostics : List Diagnostic

def Globals.bind (globals : Globals) (tree : SyntaxTree) : Binding :=
  let (_, binder) := (BindM.statements tree.statements).run { scopes := [globals] }
  { bound := binder.bound
    globals := binder.scopes.getLastD .empty
    diagnostics := binder.diagnostics.toList }

end StackScript
