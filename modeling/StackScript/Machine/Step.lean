import StackScript.Machine.Basic
import StackScript.Machine.Operation
import StackScript.Value.Object

set_option autoImplicit false

/-!
# Running

A step runs one instruction of the active activation, or ends the activation and hands its value to
the one that waits for it. Most failures are reported and the code goes on, without the value that
could not be computed; code that is itself broken ends its activation.

A run takes as many steps as it is given. It has no outcome if they do not suffice.
-/
namespace StackScript

/-- The end of a run: the value of the code and the state it leaves. -/
structure Outcome where
  value : Value
  machine : Machine

inductive Progress where
  | running (machine : Machine)
  | finished (outcome : Outcome)

namespace Machine

def next (m : Machine) : Progress := .running (m.goto (m.active.pointer + 1))

def enter (m : Machine) (activation : Activation) (awaited : Awaited) : Progress :=
  .running { m with active := activation, suspended := ⟨m.active, awaited⟩ :: m.suspended }

def enterEntry (m : Machine) (code : Code) (awaited : Awaited) : Progress :=
  let (heap, scope) := m.heap.addScope (some m.active.scope)
  { m with heap }.enter (.start code scope m.active.depth) awaited

/-- Goes on with the entries of an object, of which those in `built` are done, the last first. -/
def buildObject (m : Machine) (origin : Span) (built : List (Value × Value)) :
    List (Code × Code) → Progress
  | [] => (m.push (.object (Entries.ofPairs built.reverse)) origin).next
  | (key, value) :: rest => m.enterEntry key (.key origin built value rest)

/-- Calls a function with these arguments. The names recorded at the call win over the names of the
function's own parameters. -/
def invoke (limits : Limits) (m : Machine) (callee : Slot) (parameters : List String)
    (arguments : List Value) (origin : Span) (resume : Nat) : Progress :=
  match callee.value with
  | .function ref =>
    if m.active.depth + 1 > limits.maxCallDepth then
      let m := m.report (.callTooDeep ref.name limits.maxCallDepth) origin
      .running ((m.push .none origin).goto resume)
    else match m.heap.closure? ref with
      | none => .running (m.goto resume)
      | some closure =>
        let (heap, locals) := m.heap.addScope (some closure.scope)
        let names := if parameters.isEmpty then closure.parameters else parameters
        { m with heap := heap.defineAll locals names arguments }.enter
          (.start closure.body locals (m.active.depth + 1)) (.result origin resume)
  | value => .running ((m.report (.notCallable value) callee.origin).goto resume)

/-- Ends the active activation. Its value is the one it gives back, or the top of its stack. -/
def finish (limits : Limits) (m : Machine) (given : Option Value) : Progress :=
  let ended := m.active
  let value := given.getD ended.top
  match m.suspended with
  | [] => .finished ⟨value, m⟩
  | caller :: suspended =>
    let m := { m with active := caller.activation, suspended }
    match caller.awaited with
    | .arguments callee parameters origin resume =>
      m.invoke limits callee parameters (ended.stack.reverse.map (·.value)) origin resume
    | .result origin resume => .running ((m.push value origin).goto resume)
    | .key origin built valueCode rest => m.enterEntry valueCode (.value origin built value rest)
    | .value origin built key rest => m.buildObject origin ((key, value) :: built) rest

def fail (limits : Limits) (m : Machine) (fault : RunFault) (origin : Span) : Progress :=
  (m.report fault origin).finish limits none

def pop (limits : Limits) (m : Machine) (origin : Span) (go : Slot → Machine → Progress) :
    Progress :=
  match m.active.stack with
  | slot :: stack => go slot (m.setStack stack)
  | [] => m.fail limits (.stackUnderflow m.active.pointer) origin

/-- The two topmost values of the stack; the second argument is the one below. -/
def popTwo (limits : Limits) (m : Machine) (origin : Span)
    (go : Slot → Slot → Machine → Progress) : Progress :=
  m.pop limits origin fun top m => m.pop limits origin fun below m => go top below m

def withTarget (limits : Limits) (m : Machine) (instruction : Instruction) (go : Nat → Progress) :
    Progress :=
  match instruction.target? with
  | some target =>
    if target < m.active.code.length then go target
    else m.fail limits (.jumpOutside target m.active.code.length) instruction.origin
  | none => m.fail limits (.noJumpTarget instruction.opcode) instruction.origin

def jumpIf (limits : Limits) (m : Machine) (instruction : Instruction) (wanted : Bool) : Progress :=
  m.withTarget limits instruction fun target =>
    m.pop limits instruction.origin fun condition m =>
      match condition.value.toBool with
      | .ok truth => if truth == wanted then .running (m.goto target) else m.next
      | .error error => (m.report (.coercion error) condition.origin).next

def loadName (limits : Limits) (m : Machine) (origin : Span) : Progress :=
  m.pop limits origin fun slot m =>
    match slot.value with
    | .string name => (m.push (m.heap.lookup m.active.scope name) origin).next
    | found => (m.report (.notAName found) slot.origin).next

def store (limits : Limits) (m : Machine) (keep : Bool) (origin : Span) : Progress :=
  m.popTwo limits origin fun stored slot m =>
    match slot.value with
    | .string name =>
      let m := { m with heap := m.heap.assign m.active.scope name stored.value }
      (if keep then m.push stored.value origin else m).next
    | found => (m.report (.notAName found) slot.origin).next

def index (limits : Limits) (m : Machine) (origin : Span) : Progress :=
  m.popTwo limits origin fun key target m =>
    match target.value with
    | .object entries => (m.push ((Entries.get? entries key.value).getD .none) origin).next
    | value => (m.report (.notIndexable value) target.origin).next

def beginScope (m : Machine) : Progress :=
  let (heap, scope) := m.heap.addScope (some m.active.scope)
  { m with
    heap
    active := { m.active with scope, scopeDepth := m.active.scopeDepth + 1 } }.next

def endScope (m : Machine) (origin : Span) : Progress :=
  match (m.heap.scope m.active.scope).enclosing, m.active.scopeDepth with
  | some scope, scopeDepth + 1 => { m with active := { m.active with scope, scopeDepth } }.next
  | _, _ => (m.report .unbalancedScope origin).next

/-- The arguments are the instructions after the call, which run in the active scope. -/
def call (limits : Limits) (m : Machine) (count : Nat) (parameters : List String) (origin : Span) :
    Progress :=
  m.pop limits origin fun callee m =>
    let start := m.active.pointer + 1
    let size := m.active.code.length
    if start + count ≤ size then
      let code := (m.active.code.drop start).take count
      m.enter (.start code m.active.scope m.active.depth)
        (.arguments callee parameters origin (start + count))
    else m.fail limits (.argumentsMissing count (size - start)) origin

def makeClosure (m : Machine) (name : String) (parameters : List String) (body : Code)
    (origin : Span) : Progress :=
  let (heap, ref) := m.heap.addClosure ⟨name, parameters, body, m.active.scope⟩
  ({ m with heap }.push (.function ref) origin).next

def giveBack (limits : Limits) (m : Machine) : Progress :=
  match m.active.stack with
  | slot :: stack => (m.setStack stack).finish limits (some slot.value)
  | [] => m.finish limits (some .none)

/-- The result stands where the right operand came from. -/
def binary (limits : Limits) (m : Machine) (origin : Span)
    (operation : Value → Value → Except CoercionError Value) : Progress :=
  m.popTwo limits origin fun right left m =>
    match operation left.value right.value with
    | .ok value => (m.push value right.origin).next
    | .error error => (m.report (.coercion error) origin).next

def unary (limits : Limits) (m : Machine) (origin : Span)
    (operation : Value → Except CoercionError Value) : Progress :=
  m.pop limits origin fun operand m =>
    match operation operand.value with
    | .ok value => (m.push value origin).next
    | .error error => (m.report (.coercion error) operand.origin).next

def execute (limits : Limits) (m : Machine) (instruction : Instruction) : Progress :=
  let opcode := instruction.opcode
  let origin := instruction.origin
  match opcode, instruction.operand with
  | .push, some (.value value) => (m.push value origin).next
  | .pushNone, _ => (m.push .none origin).next
  | .pushObject, some (.entries entries) => m.buildObject origin [] entries
  | .pop, _ => m.pop limits origin fun _ m => m.next
  | .swap, _ => m.popTwo limits origin fun top below m =>
    (m.setStack (below :: top :: m.active.stack)).next
  | .dup, _ => m.pop limits origin fun top m => (m.setStack (top :: top :: m.active.stack)).next
  | .load, _ => m.loadName limits origin
  | .store, none => m.store limits true origin
  | .store, some (.flag keep) => m.store limits keep origin
  | .index, _ => m.index limits origin
  | .beginScope, _ => m.beginScope
  | .endScope, _ => m.endScope origin
  | .jmp, _ => m.withTarget limits instruction fun target => .running (m.goto target)
  | .jnz, _ => m.jumpIf limits instruction true
  | .jz, _ => m.jumpIf limits instruction false
  | .call, some (.call count parameters) => m.call limits count parameters origin
  | .proc, some (.proc name parameters body) => m.makeClosure name parameters body origin
  | .giveBack, _ => m.giveBack limits
  | .exit, _ => m.finish limits none
  | .noop, _ => m.next
  | opcode, operand =>
    match opcode.binary?, opcode.unary? with
    | some operation, _ => m.binary limits origin operation
    | none, some operation => m.unary limits origin operation
    | none, none => m.fail limits (.malformed opcode operand) origin

def step (limits : Limits) (m : Machine) : Progress :=
  match m.active.code[m.active.pointer]? with
  | none => m.finish limits none
  | some instruction =>
    match m.charge limits instruction.origin with
    | (true, m) => m.execute limits instruction
    | (false, m) => m.finish limits none

/-- The outcome of a run, if it ends within that many steps. -/
def run (limits : Limits) : Nat → Machine → Option Outcome
  | 0, _ => none
  | fuel + 1, m =>
    match m.step limits with
    | .running m => run limits fuel m
    | .finished outcome => some outcome

/-- More steps than a computer takes in a century. -/
def patience : Nat := Nat.pow 2 62

end Machine

end StackScript
