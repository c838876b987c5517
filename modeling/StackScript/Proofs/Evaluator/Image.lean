import StackScript.Machine.Step
import StackScript.Proofs.Code.Placed
import StackScript.Proofs.Evaluator.Basic
import StackScript.Proofs.Machine.Reach

set_option autoImplicit false

/-!
# The machine beside the evaluator

`Host.machine` is the machine that stands where the evaluator is: same stack, scope, scopes and log,
and every function replaced by its code. `Answers` compares the operations of the two on the stack,
`Follows` compares whole stretches of code.
-/
namespace StackScript.Direct

open Code (Placed)
open Machine (Reaches)

def Routine.code (routine : Routine) : Code :=
  Generate.ofStatements routine.bound 0 routine.body ++ [.plain .exit routine.span]

def Routine.closure (routine : Routine) : Closure :=
  ⟨routine.name, routine.parameters, routine.code, routine.scope⟩

/-- The heap with the same scopes in which functions have code. -/
def World.heap (world : World) : Heap :=
  { world.scopes with closures := world.routines.map Routine.closure }

theorem owner_closures (heap : Heap) (closures : Array Closure) (id : Nat) (name : String) :
    Heap.owner? { heap with closures } id name = heap.owner? id name := by
  unfold Heap.owner?
  generalize id + 1 = count
  induction count generalizing id with
  | zero => rfl
  | succ count ih =>
    have hscope : Heap.scope { heap with closures } id = heap.scope id := rfl
    simp only [Heap.ownerWithin, hscope]
    cases (heap.scope id).enclosing with
    | none => rfl
    | some outer => simp only [ih outer]

theorem heap_lookup (world : World) (id : Nat) (name : String) :
    world.heap.lookup id name = world.scopes.lookup id name := by
  rw [Heap.lookup, World.heap, owner_closures]
  rfl

theorem heap_assign (world : World) (id : Nat) (name : String) (value : Value) :
    world.heap.assign id name value =
      { world with scopes := world.scopes.assign id name value : World }.heap := by
  rw [Heap.assign, World.heap, owner_closures]
  rfl

theorem heap_defineAll (world : World) (id : Nat) (names : List String) (values : List Value) :
    world.heap.defineAll id names values =
      { world with scopes := world.scopes.defineAll id names values : World }.heap := by
  induction names generalizing world values with
  | nil => rfl
  | cons name names ih =>
    cases values with
    | nil => exact ih { world with scopes := world.scopes.define id name .none } []
    | cons value values => exact ih { world with scopes := world.scopes.define id name value } values

theorem heap_closure (world : World) (ref : FunctionRef) :
    world.heap.closure? ref = world.routines[ref.id]?.map Routine.closure := by
  simp [Heap.closure?, World.heap]

/-- What stays the same in a machine while one piece of code runs. -/
structure Host where
  code : Code
  root : Nat
  scope : Nat
  scopeDepth : Nat
  depth : Nat
  suspended : List Suspended
  steps : Nat

def Host.activation (host : Host) (pointer : Nat) (stack : List Slot) : Activation :=
  { host with pointer, stack }

/-- The machine that stands at `pointer` with the state `s`. -/
def Host.machine (host : Host) (pointer : Nat) (s : State) : Machine :=
  { host with
    active := host.activation pointer s.stack
    heap := s.world.heap
    log := s.world.log }

variable {limits : Limits} {host : Host} {pointer stop : Nat} {s : State}

/-- A step of the machine does what the evaluator does: it goes on at `stop`, or ends the
activation. -/
def Answers (limits : Limits) (host : Host) (stop : Nat) (progress : Progress) : Flow → Prop
  | .next s => progress = .running (host.machine stop s)
  | .ended given s => ∃ pointer, progress = (host.machine pointer s).finish limits given

/-- The machine gets to a step that ends the activation, perhaps in a scope inside the one it was
in. -/
def Ends (limits : Limits) (host : Host) (m : Machine) (given : Option Value) (s : State) : Prop :=
  ∃ n scope scopeDepth pointer, Reaches limits m n ∧
    n.step limits = ({ host with scope, scopeDepth }.machine pointer s).finish limits given

/-- The machine gets to `stop`, or ends the activation, as the evaluator does. -/
def Follows (limits : Limits) (host : Host) (stop : Nat) (m : Machine) : Flow → Prop
  | .next s => Reaches limits m (host.machine stop s)
  | .ended given s => Ends limits host m given s

theorem Answers.follows {m : Machine} {progress : Progress} {flow : Flow}
    (h : Answers limits host stop progress flow) (hstep : m.step limits = progress) :
    Follows limits host stop m flow := by
  subst hstep
  cases flow with
  | next s => exact .single h
  | ended given s =>
    obtain ⟨pointer, hend⟩ := h
    exact ⟨m, host.scope, host.scopeDepth, pointer, .refl m, hend⟩

theorem Follows.of_reaches {m n : Machine} {flow : Flow} (hreach : Reaches limits m n)
    (h : Follows limits host stop n flow) : Follows limits host stop m flow := by
  cases flow with
  | next s => exact hreach.trans h
  | ended given s =>
    obtain ⟨last, scope, scopeDepth, pointer, htail, hend⟩ := h
    exact ⟨last, scope, scopeDepth, pointer, hreach.trans htail, hend⟩

theorem Follows.andThen {m : Machine} {flow : Flow} {go : State → Flow} {middle : Nat}
    (h : Follows limits host middle m flow)
    (hgo : ∀ s, Follows limits host stop (host.machine middle s) (go s)) :
    Follows limits host stop m (flow.andThen go) := by
  cases flow with
  | next s => exact (hgo s).of_reaches h
  | ended given s => exact h

theorem Follows.then_reaches {m : Machine} {flow : Flow} {middle : Nat}
    (h : Follows limits host middle m flow)
    (hgo : ∀ s, Reaches limits (host.machine middle s) (host.machine stop s)) :
    Follows limits host stop m flow := by
  cases flow with
  | next s => exact h.trans (hgo s)
  | ended given s => exact h

theorem answers_pop {origin : Span} {go : Slot → Machine → Progress} {go' : Slot → State → Flow}
    (h : ∀ slot s, Answers limits host stop (go slot (host.machine pointer s)) (go' slot s))
    (s : State) :
    Answers limits host stop ((host.machine pointer s).pop limits origin go)
      (pop pointer origin s go') := by
  obtain ⟨stack, world⟩ := s
  cases stack with
  | nil => exact ⟨pointer, rfl⟩
  | cons slot stack => exact h slot ⟨stack, world⟩

theorem answers_popTwo {origin : Span} {go : Slot → Slot → Machine → Progress}
    {go' : Slot → Slot → State → Flow}
    (h : ∀ top below s, Answers limits host stop (go top below (host.machine pointer s))
      (go' top below s)) (s : State) :
    Answers limits host stop ((host.machine pointer s).popTwo limits origin go)
      (popTwo pointer origin s go') :=
  answers_pop (fun top s => answers_pop (fun below s => h top below s) s) s

theorem answers_unary (f : Value → Except CoercionError Value) (origin : Span) (s : State) :
    Answers limits host (pointer + 1) ((host.machine pointer s).unary limits origin f)
      ((Effect.unary f).apply pointer origin s) := by
  unfold Machine.unary Effect.apply
  refine answers_pop (fun operand s => ?_) s
  cases f operand.value <;> rfl

theorem answers_binary (f : Value → Value → Except CoercionError Value) (origin : Span)
    (s : State) :
    Answers limits host (pointer + 1) ((host.machine pointer s).binary limits origin f)
      ((Effect.binary f).apply pointer origin s) := by
  unfold Machine.binary Effect.apply
  refine answers_popTwo (fun right left s => ?_) s
  cases f left.value right.value <;> rfl

theorem answers_store (keep : Bool) (origin : Span) (s : State) :
    Answers limits host (pointer + 1) ((host.machine pointer s).store limits keep origin)
      (store host.scope keep pointer origin s) := by
  refine answers_popTwo (fun stored slot s => ?_) s
  cases hname : slot.value with
  | string name =>
    have hheap := heap_assign s.world host.scope name stored.value
    cases keep <;>
      simp only [Answers, Host.machine, Host.activation, Machine.next, Machine.goto, Machine.push,
        Machine.setStack, State.assign, State.push, hheap, Bool.false_eq_true, ↓reduceIte]
  | _ => rfl

theorem answers_select (origin : Span) (s : State) :
    Answers limits host (pointer + 1) ((host.machine pointer s).index limits origin)
      (select pointer origin s) := by
  refine answers_popTwo (fun key target s => ?_) s
  cases target.value <;> rfl

end StackScript.Direct
