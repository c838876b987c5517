import StackScript.Heap
import StackScript.Code.Listing
import StackScript.Diagnostic.Basic
import StackScript.Value.Coercion

set_option autoImplicit false

/-!
# The state of the machine

Code runs in an activation, which has a stack of its own. An activation that needs the value of
other code waits while a new activation runs that code: the arguments of a call, the body of a
function, and each key and value of an object. All activations share the heap, the log of
diagnostics and the count of steps.
-/
namespace StackScript

structure Limits where
  maxCallDepth : Nat := 128
  stepLimit : Option Nat := none

/-- A value on the stack, with the place of the instruction that made it. -/
structure Slot where
  origin : Span
  value : Value

structure Activation where
  code : Code
  pointer : Nat := 0
  /-- The values on the stack, the top first. -/
  stack : List Slot := []
  /-- The scope the activation began in. -/
  root : Nat
  scope : Nat
  /-- How many scopes lie between the active scope and the root. -/
  scopeDepth : Nat := 0
  /-- The number of function bodies this activation is inside of. -/
  depth : Nat := 0

def Activation.start (code : Code) (scope depth : Nat) : Activation :=
  { code, root := scope, scope, depth }

/-- What an activation without a result of its own leaves: the top of its stack. -/
def Activation.top (activation : Activation) : Value :=
  match activation.stack with
  | slot :: _ => slot.value
  | [] => .none

/-- What a waiting activation does with the activation it waits for. -/
inductive Awaited where
  /-- Takes the stack as the arguments of a call, and goes on at `resume` after the call. -/
  | arguments (callee : Slot) (parameters : List String) (origin : Span) (resume : Nat)
  /-- Takes the value of a function body as the value of the call. -/
  | result (origin : Span) (resume : Nat)
  /-- Takes the key of an object's entry; `value` is the code of its value. -/
  | key (origin : Span) (built : List (Value × Value)) (value : Code) (rest : List (Code × Code))
  /-- Takes the value of an object's entry. -/
  | value (origin : Span) (built : List (Value × Value)) (key : Value) (rest : List (Code × Code))

structure Suspended where
  activation : Activation
  awaited : Awaited

structure Machine where
  active : Activation
  /-- The waiting activations, the latest first. -/
  suspended : List Suspended := []
  heap : Heap
  steps : Nat := 0
  log : DiagnosticLog := {}

inductive RunFault where
  | stackUnderflow (pointer : Nat)
  | notAName (found : Value)
  | coercion (error : CoercionError)
  | notIndexable (value : Value)
  | notCallable (value : Value)
  | unbalancedScope
  | jumpOutside (target size : Nat)
  | noJumpTarget (opcode : Opcode)
  | malformed (opcode : Opcode) (operand : Option Operand)
  | argumentsMissing (expected remaining : Nat)
  | callTooDeep (name : String) (limit : Nat)
  | outOfSteps (limit : Nat)

namespace RunFault

def code : RunFault → DiagnosticCode
  | .stackUnderflow _ | .notAName _ => .stackCorruption
  | .coercion _ => .invalidCoercion
  | .notIndexable _ => .notIndexable
  | .notCallable _ => .notCallable
  | .unbalancedScope => .unbalancedScope
  | .jumpOutside _ _ | .noJumpTarget _ => .invalidJumpTarget
  | .malformed _ _ | .argumentsMissing _ _ => .malformedInstruction
  | .callTooDeep _ _ => .callDepthExceeded
  | .outOfSteps _ => .stepLimitExceeded

def severity : RunFault → Severity
  | .unbalancedScope => .warning
  | _ => .error

def message : RunFault → String
  | .stackUnderflow pointer => s!"Stack underflow at instruction {pointer}"
  | .notAName found => s!"Expected a variable name, found {found.typeName}"
  | .coercion error => error.message
  | .notIndexable v => s!"Value of type '{v.typeName}' cannot be indexed"
  | .notCallable v => s!"Value of type '{v.typeName}' is not callable"
  | .unbalancedScope => "ENDSCOPE without a matching BEGINSCOPE"
  | .jumpOutside target size => s!"Jump target {target} is outside the program (length {size})"
  | .noJumpTarget opcode => s!"{opcode.mnemonic} requires an integer jump target"
  | .malformed opcode (some operand) =>
    s!"{opcode.mnemonic} cannot take the operand '{operand.display}'"
  | .malformed opcode none => s!"{opcode.mnemonic} requires an operand"
  | .argumentsMissing expected remaining =>
    s!"CALL expects {expected} argument instructions but only {remaining} remain"
  | .callTooDeep name limit => s!"Call to '{name}' exceeds the maximum call depth of {limit}"
  | .outOfSteps limit => s!"Step limit of {limit} instructions exceeded"

def diagnostic (fault : RunFault) (span : Span) : Diagnostic :=
  ⟨fault.code, fault.severity, fault.message, span⟩

end RunFault

namespace Machine

def load (code : Code) (scope : Nat) (heap : Heap) (steps : Nat := 0) : Machine :=
  { active := .start code scope 0, heap, steps }

def report (m : Machine) (fault : RunFault) (span : Span) : Machine :=
  { m with log := m.log.push (fault.diagnostic span) }

def setStack (m : Machine) (stack : List Slot) : Machine :=
  { m with active := { m.active with stack } }

def push (m : Machine) (value : Value) (origin : Span) : Machine :=
  m.setStack (⟨origin, value⟩ :: m.active.stack)

def goto (m : Machine) (pointer : Nat) : Machine :=
  { m with active := { m.active with pointer } }

/-- Counts an instruction against the limit and tells whether it may still run. The first one that
may not is reported; those after it are not. -/
def charge (limits : Limits) (m : Machine) (origin : Span) : Bool × Machine :=
  match limits.stepLimit with
  | none => (true, m)
  | some limit =>
    let counted := { m with steps := m.steps + 1 }
    if counted.steps ≤ limit then (true, counted)
    else if counted.steps = limit + 1 then (false, counted.report (.outOfSteps limit) origin)
    else (false, counted)

end Machine

end StackScript
