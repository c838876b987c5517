import StackScript.Code.Generate
import StackScript.Heap
import StackScript.Machine.Basic
import StackScript.Machine.Operation
import StackScript.Value.Object

set_option autoImplicit false

/-!
# Evaluating a program from its tree

The meaning of a program without code: statements and expressions act directly on a stack of values,
the scopes and the log of diagnostics. An operation that fails is reported and pushes nothing, so what
comes after it finds the stack one value short; an operation that finds no value at all ends the
list of statements, the argument list or the part of an object it stands in.

A function body is evaluated with one call less to spend than the call that runs it. This and the
size of the tree make the evaluator total.
-/
namespace StackScript.Direct

/-- A function as it was declared, with what binding recorded for the program it stands in. -/
structure Routine where
  name : String
  parameters : List String
  body : List Statement
  bound : BoundTree
  span : Span
  scope : Nat

/-- What all parts of a run share. The heap is used for its scopes; functions are kept apart. -/
structure World where
  scopes : Heap := Heap.withGlobalScope
  routines : Array Routine := #[]
  log : DiagnosticLog := {}

def World.inner (world : World) (outer : Nat) : World × Nat :=
  let (scopes, scope) := world.scopes.addScope (some outer)
  ({ world with scopes }, scope)

structure State where
  stack : List Slot := []
  world : World

namespace State

def push (s : State) (value : Value) (origin : Span) : State :=
  { s with stack := ⟨origin, value⟩ :: s.stack }

def report (s : State) (fault : RunFault) (span : Span) : State :=
  { s with world.log := s.world.log.push (fault.diagnostic span) }

def lookup (s : State) (scope : Nat) (name : String) : Value := s.world.scopes.lookup scope name

def assign (s : State) (scope : Nat) (name : String) (value : Value) : State :=
  { s with world.scopes := s.world.scopes.assign scope name value }

def top (s : State) : Value :=
  match s.stack with
  | slot :: _ => slot.value
  | [] => .none

end State

/-- How evaluation goes on: with what comes next, or not at all, perhaps because a value was given
back. -/
inductive Flow where
  | next (s : State)
  | ended (given : Option Value) (s : State)

namespace Flow

def andThen (flow : Flow) (go : State → Flow) : Flow :=
  match flow with
  | .next s => go s
  | .ended given s => .ended given s

def state : Flow → State
  | .next s | .ended _ s => s

def given : Flow → Option Value
  | .next _ => none
  | .ended given _ => given

/-- The value given back, or else the top of the stack. -/
def value (flow : Flow) : Value := flow.given.getD flow.state.top

end Flow

-- Each takes the number of the instruction it stands for, which is named when the stack is empty.
def pop (index : Nat) (origin : Span) (s : State) (go : Slot → State → Flow) : Flow :=
  match s.stack with
  | slot :: stack => go slot { s with stack }
  | [] => .ended none (s.report (.stackUnderflow index) origin)

def popTwo (index : Nat) (origin : Span) (s : State) (go : Slot → Slot → State → Flow) : Flow :=
  pop index origin s fun top s => pop index origin s fun below s => go top below s

inductive Effect where
  | unary (f : Value → Except CoercionError Value)
  | binary (f : Value → Value → Except CoercionError Value)

/-- The result of a unary operation stands where the operation does, that of a binary one where its
right operand does. -/
def Effect.apply (effect : Effect) (index : Nat) (origin : Span) (s : State) : Flow :=
  match effect with
  | .unary f => pop index origin s fun operand s =>
    match f operand.value with
    | .ok value => .next (s.push value origin)
    | .error error => .next (s.report (.coercion error) operand.origin)
  | .binary f => popTwo index origin s fun right left s =>
    match f left.value right.value with
    | .ok value => .next (s.push value right.origin)
    | .error error => .next (s.report (.coercion error) origin)

def applyAll (index : Nat) (origin : Span) : List Effect → State → Flow
  | [], s => .next s
  | effect :: rest, s => (effect.apply index origin s).andThen (applyAll (index + 1) origin rest)

/-- Gives the variable named below the top of the stack the value on top of it. -/
def store (scope : Nat) (keep : Bool) (index : Nat) (origin : Span) (s : State) : Flow :=
  popTwo index origin s fun stored slot s =>
    match slot.value with
    | .string name =>
      let s := s.assign scope name stored.value
      .next (if keep then s.push stored.value origin else s)
    | found => .next (s.report (.notAName found) slot.origin)

def select (index : Nat) (origin : Span) (s : State) : Flow :=
  popTwo index origin s fun key target s =>
    match target.value with
    | .object entries => .next (s.push ((Entries.get? entries key.value).getD .none) origin)
    | value => .next (s.report (.notIndexable value) target.origin)

def literalValue : Literal → Value
  | .none => .none
  | .bool b => .bool b
  | .int i => .int i
  | .float x => .float x
  | .char c => .char c
  | .string s => .string s

section Tables

open Operation

def inversion (value : Value) : Except CoercionError Value := return .bool (!(← value.toBool))

def equality (left right : Value) : Except CoercionError Value := .ok (.bool (left == right))

def less : Value → Value → Except CoercionError Value := comparison fun a b => decide (a < b)

def lessOrEqual : Value → Value → Except CoercionError Value := comparison fun a b => decide (a ≤ b)

/-- Three of the comparisons invert another one. -/
def effects : BinaryOperation → List Effect
  | .addition => [.binary (arithmetic (· + ·))]
  | .subtraction => [.binary (arithmetic (· - ·))]
  | .multiplication => [.binary (arithmetic (· * ·))]
  | .division => [.binary (arithmetic (· / ·))]
  | .integerDivision => [.binary integerDivision]
  | .modulo => [.binary (arithmetic Decimal.remainder)]
  | .power => [.binary (arithmetic Float.pow)]
  | .concatenation => [.binary fun left right => .ok (.string (left.display ++ right.display))]
  | .bitwiseAnd => [.binary (bitwise (· &&& ·))]
  | .bitwiseOr => [.binary (bitwise (· ||| ·))]
  | .bitwiseXor => [.binary (bitwise (· ^^^ ·))]
  | .shiftLeft => [.binary (bitwise shiftLeft)]
  | .shiftRight => [.binary (bitwise shiftRight)]
  | .logicalAnd => [.binary (logical (· && ·))]
  | .logicalOr => [.binary (logical (· || ·))]
  | .equal => [.binary equality]
  | .notEqual => [.binary equality, .unary inversion]
  | .less => [.binary less]
  | .lessOrEqual => [.binary lessOrEqual]
  | .greater => [.binary lessOrEqual, .unary inversion]
  | .greaterOrEqual => [.binary less, .unary inversion]

def unaryEffect : UnaryOperator → Effect
  | .negate => .unary fun value => return .float (-(← value.toFloat))
  | .not => .unary inversion
  | _ => .unary fun value => return .int (~~~(← value.toInteger))

def increase : Effect := .binary (arithmetic (· + ·))

def decrease : Effect := .binary (arithmetic (· - ·))

end Tables

-- The number of instructions that each part of a program stands for.
def stepWidth : Expression → Nat
  | .name _ _ => 8
  | _ => 1

mutual

def width (bound : BoundTree) : Expression → Nat
  | .literal _ _ => 1
  | .name _ _ => 2
  | .paren _ inner => width bound inner
  | .unary _ operator operand =>
    match operator with
    | .increment | .decrement => stepWidth operand
    | _ => width bound operand + 1
  | .binary node _ left right =>
    match bound.operation? node with
    | none => 1
    | some operation => width bound left + width bound right + (effects operation).length
  | .assign node operator target value =>
    match target with
    | .name _ _ =>
      match operator with
      | none => 1 + width bound value + 1
      | some _ =>
        match bound.operation? node with
        | none => 1
        | some operation => 3 + width bound value + (effects operation).length + 1
    | _ => 1
  | .object _ _ => 1
  | .call _ callee arguments => width bound callee + 1 + widths bound arguments
  | .member _ object _ => width bound object + 2
  | .element _ object index => width bound object + width bound index + 1
  | .hole _ => 1
termination_by structural e => e

def widths (bound : BoundTree) : List Expression → Nat
  | [] => 0
  | e :: rest => width bound e + widths bound rest
termination_by structural es => es

end

def optionalWidth (bound : BoundTree) : Option Expression → Nat
  | some e => width bound e
  | none => 1

mutual

def statementWidth (bound : BoundTree) : Statement → Nat
  | .expression _ e => width bound e
  | .letDecl _ _ _ _ initial => 1 + optionalWidth bound initial + 1
  | .fnDecl _ _ _ _ _ => 3
  | .block _ body => 1 + statementsWidth bound body + 1
  | .branch _ condition body otherwise =>
    let other := match otherwise with
      | some s => statementWidth bound s
      | none => 0
    width bound condition + 1 + other + 1 + statementWidth bound body
  | .giveBack _ value => optionalWidth bound value + 1
  | .hole _ => 1
termination_by structural s => s

def statementsWidth (bound : BoundTree) : List Statement → Nat
  | [] => 0
  | s :: rest => statementWidth bound s + statementsWidth bound rest
termination_by structural ss => ss

end

/-- What evaluation depends on besides the state. -/
structure Context where
  bound : BoundTree
  scope : Nat
  maxCallDepth : Nat
  /-- Evaluates the body of a function in the scope that holds its parameters. There is none where
  calls nest too deeply. -/
  body? : Option (Routine → Nat → World → Value × World)

/-- Calls a function. The names recorded at the call win over those the function declares. -/
def invoke (ctx : Context) (callee : Slot) (recorded : List String) (arguments : List Value)
    (origin : Span) (s : State) : State :=
  match callee.value with
  | .function ref =>
    match ctx.body? with
    | none => (s.report (.callTooDeep ref.name ctx.maxCallDepth) origin).push .none origin
    | some body =>
      match s.world.routines[ref.id]? with
      | none => s
      | some routine =>
        let (world, locals) := s.world.inner routine.scope
        let names := if recorded.isEmpty then routine.parameters else recorded
        let (value, world) :=
          body routine locals { world with scopes := world.scopes.defineAll locals names arguments }
        { s with world }.push value origin
  | value => s.report (.notCallable value) callee.origin

/-- Changes a variable by one and takes the change back on the stack only. -/
def step (scope : Nat) (apply undo : Effect) (name : String) (target origin : Span) (index : Nat)
    (s : State) : Flow :=
  let loaded := (s.push (.string name) target).push (s.lookup scope name) target
  (apply.apply (index + 4) origin (loaded.push (.int 1) origin)).andThen fun s =>
    (store scope true (index + 5) origin s).andThen fun s =>
      undo.apply (index + 7) origin (s.push (.int 1) origin)

def stepOf (scope : Nat) (apply undo : Effect) (operand : Expression) (origin : Span) (index : Nat)
    (s : State) : Flow :=
  match operand with
  | .name target name => step scope apply undo name target.span origin index s
  | _ => .next s

mutual

def expression (ctx : Context) (index : Nat) : Expression → State → Flow
  | .literal node value, s => .next (s.push (literalValue value) node.span)
  | .name node name, s => .next (s.push (s.lookup ctx.scope name) node.span)
  | .paren _ inner, s => expression ctx index inner s
  | .unary node operator operand, s =>
    match operator with
    | .increment => stepOf ctx.scope increase decrease operand node.span index s
    | .decrement => stepOf ctx.scope decrease increase operand node.span index s
    | operator =>
      (expression ctx index operand s).andThen
        ((unaryEffect operator).apply (index + width ctx.bound operand) node.span)
  | .binary node _ left right, s =>
    match ctx.bound.operation? node with
    | none => .next s
    | some operation =>
      let second := index + width ctx.bound left
      (expression ctx index left s).andThen fun s =>
        (expression ctx second right s).andThen
          (applyAll (second + width ctx.bound right) node.span (effects operation))
  | .assign node operator target value, s =>
    match target with
    | .name targetNode name =>
      let named := s.push (.string name) targetNode.span
      match operator with
      | none =>
        (expression ctx (index + 1) value named).andThen
          (store ctx.scope true (index + 1 + width ctx.bound value) node.span)
      | some _ =>
        match ctx.bound.operation? node with
        | none => .next s
        | some operation =>
          let last := index + 3 + width ctx.bound value
          let loaded := named.push (s.lookup ctx.scope name) targetNode.span
          (expression ctx (index + 3) value loaded).andThen fun s =>
            (applyAll last node.span (effects operation) s).andThen
              (store ctx.scope true (last + (effects operation).length) node.span)
    | _ => .next s
  | .object node entries, s =>
    let (pairs, world) := properties ctx entries s.world
    .next ({ s with world }.push (.object (Entries.ofPairs pairs)) node.span)
  | .call node callee arguments, s =>
    (expression ctx index callee s).andThen fun s =>
      pop (index + width ctx.bound callee) node.span s fun callee s =>
        let given := (expressions ctx 0 arguments { s with stack := [] }).state
        .next (invoke ctx callee (ctx.bound.parameters node) (given.stack.reverse.map (·.value))
          node.span { s with world := given.world })
  | .member node object name, s =>
    (expression ctx index object s).andThen fun s =>
      select (index + width ctx.bound object + 1) node.span (s.push (.string name.text) name.span)
  | .element node object key, s =>
    let second := index + width ctx.bound object
    (expression ctx index object s).andThen fun s =>
      (expression ctx second key s).andThen (select (second + width ctx.bound key) node.span)
  | .hole _, s => .next s
termination_by structural e => e

def expressions (ctx : Context) (index : Nat) : List Expression → State → Flow
  | [], s => .next s
  | e :: rest, s =>
    (expression ctx index e s).andThen (expressions ctx (index + width ctx.bound e) rest)
termination_by structural es => es

/-- The keys and values of an object, each from a stack and a scope of its own. A key that is a bare
name stands for itself. -/
def properties (ctx : Context) :
    List (Expression × Expression) → World → List (Value × Value) × World
  | [], world => ([], world)
  | (key, value) :: rest, world =>
    let (world, scope) := world.inner ctx.scope
    let keyFlow := match key with
      | .name node name => Flow.next (State.push { world } (.string name) node.span)
      | key => expression { ctx with scope } 0 key { world }
    let (world, scope) := keyFlow.state.world.inner ctx.scope
    let valueFlow := expression { ctx with scope } 0 value { world }
    let (pairs, world) := properties ctx rest valueFlow.state.world
    ((keyFlow.value, valueFlow.value) :: pairs, world)
termination_by structural entries => entries

end

def optional (ctx : Context) (index : Nat) (value : Option Expression) (origin : Span) (s : State) :
    Flow :=
  match value with
  | some e => expression ctx index e s
  | none => .next (s.push .none origin)

def declareRoutine (s : State) (routine : Routine) : State :=
  let ref := FunctionRef.mk s.world.routines.size routine.name
  { s with world.routines := s.world.routines.push routine }.assign routine.scope routine.name
    (.function ref)

mutual

def statement (ctx : Context) (index : Nat) : Statement → State → Flow
  | .expression _ e, s => expression ctx index e s
  | .letDecl node _ name _ initial, s =>
    (optional ctx (index + 1) initial node.span (s.push (.string name.text) name.span)).andThen
      (store ctx.scope false (index + 1 + optionalWidth ctx.bound initial) node.span)
  | .fnDecl node name parameters _ body, s =>
    .next (declareRoutine s {
      name := name.text
      parameters := parameters.map (·.name.text)
      body
      bound := ctx.bound
      span := node.span
      scope := ctx.scope })
  | .block _ body, s =>
    let (world, scope) := s.world.inner ctx.scope
    statements { ctx with scope } (index + 1) body { s with world }
  | .branch node condition body otherwise, s =>
    let test := index + width ctx.bound condition
    let otherWidth := match otherwise with
      | some other => statementWidth ctx.bound other
      | none => 0
    -- The other branch stands in front of the body.
    let orElse := fun (s : State) => match otherwise with
      | some other => statement ctx (test + 1) other s
      | none => Flow.next s
    (expression ctx index condition s).andThen fun s => pop test node.span s fun slot s =>
      match slot.value.toBool with
      | .ok true => statement ctx (test + 1 + otherWidth + 1) body s
      | .ok false => orElse s
      | .error error => orElse (s.report (.coercion error) slot.origin)
  | .giveBack node value, s =>
    (optional ctx index value node.span s).andThen fun s =>
      .ended (some s.top) { s with stack := s.stack.tail }
  | .hole _, s => .next s
termination_by structural s => s

def statements (ctx : Context) (index : Nat) : List Statement → State → Flow
  | [], s => .next s
  | first :: rest, s =>
    (statement ctx index first s).andThen
      (statements ctx (index + statementWidth ctx.bound first) rest)
termination_by structural ss => ss

end

/-- Evaluates function bodies, if that many further calls may nest. -/
def body? (maxCallDepth : Nat) : Nat → Option (Routine → Nat → World → Value × World)
  | 0 => none
  | budget + 1 => some fun routine scope world =>
    let ctx := ⟨routine.bound, scope, maxCallDepth, body? maxCallDepth budget⟩
    let flow := statements ctx 0 routine.body { world }
    (flow.value, flow.state.world)

/-- Evaluates a program in a scope, starting from an empty stack. -/
def evaluate (maxCallDepth : Nat) (tree : SyntaxTree) (bound : BoundTree) (scope : Nat)
    (world : World) : Flow :=
  statements ⟨bound, scope, maxCallDepth, body? maxCallDepth maxCallDepth⟩ 0 tree.statements
    { world }

theorem given_andThen {flow : Flow} {go : State → Flow} (h : flow.given = none)
    (hgo : ∀ s, (go s).given = none) : (flow.andThen go).given = none := by
  cases flow with
  | next s => exact hgo s
  | ended given s => exact h

theorem given_pop {go : Slot → State → Flow} (h : ∀ slot s, (go slot s).given = none) (index : Nat)
    (origin : Span) (s : State) : (pop index origin s go).given = none := by
  unfold pop
  split
  · exact h _ _
  · rfl

theorem given_popTwo {go : Slot → Slot → State → Flow}
    (h : ∀ top below s, (go top below s).given = none) (index : Nat) (origin : Span) (s : State) :
    (popTwo index origin s go).given = none :=
  given_pop (fun top s => given_pop (h top) index origin s) index origin s

theorem given_apply (effect : Effect) (index : Nat) (origin : Span) (s : State) :
    (effect.apply index origin s).given = none := by
  unfold Effect.apply
  cases effect with
  | unary f =>
    refine given_pop (fun operand s => ?_) index origin s
    cases f operand.value <;> rfl
  | binary f =>
    refine given_popTwo (fun right left s => ?_) index origin s
    cases f left.value right.value <;> rfl

theorem given_applyAll (effects : List Effect) (index : Nat) (origin : Span) (s : State) :
    (applyAll index origin effects s).given = none := by
  induction effects generalizing index s with
  | nil => rfl
  | cons effect rest ih => exact given_andThen (given_apply effect index origin s) (ih _)

theorem given_store (scope : Nat) (keep : Bool) (index : Nat) (origin : Span) (s : State) :
    (store scope keep index origin s).given = none := by
  refine given_popTwo (fun stored slot s => ?_) index origin s
  cases slot.value <;> rfl

theorem given_select (index : Nat) (origin : Span) (s : State) :
    (select index origin s).given = none := by
  refine given_popTwo (fun key target s => ?_) index origin s
  cases target.value <;> rfl

theorem given_stepOf (scope : Nat) (apply undo : Effect) (operand : Expression) (origin : Span)
    (index : Nat) (s : State) : (stepOf scope apply undo operand origin index s).given = none := by
  cases operand with
  | name target name =>
    exact given_andThen (given_apply _ _ _ _) fun _ =>
      given_andThen (given_store _ _ _ _ _) fun _ => given_apply _ _ _ _
  | _ => rfl

theorem given_expression (ctx : Context) : (e : Expression) → ∀ (index : Nat) (s : State),
    (expression ctx index e s).given = none
  | .literal _ _, _, _ => rfl
  | .name _ _, _, _ => rfl
  | .paren _ inner, index, s => given_expression ctx inner index s
  | .unary _ operator operand, index, s => by
    have hoperand := given_expression ctx operand index s
    cases operator with
    | increment | decrement => exact given_stepOf _ _ _ _ _ _ _
    | _ => exact given_andThen hoperand (given_apply _ _ _)
  | .binary node _ left right, index, s => by
    have hleft := given_expression ctx left index s
    have hright := given_expression ctx right
    rw [expression]
    cases ctx.bound.operation? node with
    | none => rfl
    | some operation =>
      exact given_andThen hleft fun s => given_andThen (hright _ s) (given_applyAll _ _ _)
  | .assign node operator target value, index, s => by
    have hvalue := given_expression ctx value
    cases target with
    | name targetNode name =>
      cases operator with
      | none => exact given_andThen (hvalue _ _) (given_store _ _ _ _)
      | some operator =>
        simp only [expression]
        cases ctx.bound.operation? node with
        | none => rfl
        | some operation =>
          exact given_andThen (hvalue _ _) fun s =>
            given_andThen (given_applyAll _ _ _ _) (given_store _ _ _ _)
    | _ => rfl
  | .object _ _, _, _ => rfl
  | .call _ callee _, index, s =>
    given_andThen (given_expression ctx callee index s) (given_pop (fun _ _ => rfl) _ _)
  | .member _ object _, index, s =>
    given_andThen (given_expression ctx object index s) fun _ => given_select _ _ _
  | .element _ object key, index, s =>
    given_andThen (given_expression ctx object index s) fun s =>
      given_andThen (given_expression ctx key _ s) (given_select _ _)
  | .hole _, _, _ => rfl
termination_by structural e => e

theorem given_optional (ctx : Context) (index : Nat) (value : Option Expression) (origin : Span)
    (s : State) : (optional ctx index value origin s).given = none := by
  cases value with
  | none => rfl
  | some e => exact given_expression ctx e index s

end StackScript.Direct
