import StackScript.NameTable
import StackScript.Code.Basic

set_option autoImplicit false

/-!
# Scopes and closures

The heap holds the scopes and the closures that a run has made, under numbers in the order of their
making. A scope binds names to values and may lie inside an older scope, so a chain of enclosing
scopes is no longer than the number of its first scope allows. A closure is a function with the
scope it was made in. Nothing is ever taken off the heap, and a number keeps its meaning.
-/
namespace StackScript

structure Scope where
  bindings : NameTable Value := {}
  enclosing : Option Nat := none

def Scope.detail (scope : Scope) : String :=
  let names := String.intercalate ", " (scope.bindings.names.map Text.quotedString)
  "Scope \x7b names: [" ++ names ++ "], has_enclosing: " ++
    Value.boolText scope.enclosing.isSome ++ " \x7d"

structure Closure where
  name : String
  parameters : List String
  body : Code
  scope : Nat

structure Heap where
  scopes : Array Scope := #[]
  closures : Array Closure := #[]

namespace Heap

def empty : Heap := {}

def scope (heap : Heap) (id : Nat) : Scope := heap.scopes[id]?.getD {}

def addScope (heap : Heap) (enclosing : Option Nat) : Heap × Nat :=
  let id := heap.scopes.size
  ({ heap with scopes := heap.scopes.push { enclosing } }, id)

/-- A heap with one scope, which lies in no other and has number 0. -/
def withGlobalScope : Heap := (empty.addScope none).1

def addClosure (heap : Heap) (closure : Closure) : Heap × FunctionRef :=
  let id := heap.closures.size
  ({ heap with closures := heap.closures.push closure }, ⟨id, closure.name⟩)

def closure? (heap : Heap) (ref : FunctionRef) : Option Closure := heap.closures[ref.id]?

/-- The first of at most `count` scopes, from `id` outwards, that binds the name. -/
def ownerWithin (heap : Heap) (name : String) : Nat → Nat → Option Nat
  | 0, _ => none
  | count + 1, id =>
    let scope := heap.scope id
    if scope.bindings.contains name then some id
    else match scope.enclosing with
      | some outer => ownerWithin heap name count outer
      | none => none

/-- The nearest scope of a chain that binds the name. -/
def owner? (heap : Heap) (id : Nat) (name : String) : Option Nat :=
  heap.ownerWithin name (id + 1) id

/-- The value of a name in a scope. A name that is bound nowhere has the value `none`. -/
def lookup (heap : Heap) (id : Nat) (name : String) : Value :=
  match heap.owner? id name with
  | some owner => ((heap.scope owner).bindings.get? name).getD .none
  | none => .none

def isDeclared (heap : Heap) (id : Nat) (name : String) : Bool := (heap.owner? id name).isSome

/-- Binds the name in this scope, whatever the scopes around it say. -/
def define (heap : Heap) (id : Nat) (name : String) (value : Value) : Heap :=
  { heap with
    scopes := heap.scopes.modify id fun scope =>
      { scope with bindings := scope.bindings.insert name value } }

/-- Changes the nearest binding of the name, or makes one in this scope if there is none. -/
def assign (heap : Heap) (id : Nat) (name : String) (value : Value) : Heap :=
  heap.define ((heap.owner? id name).getD id) name value

/-- Binds parameters to arguments by position; those without an argument are bound to `none`. -/
def defineAll (heap : Heap) (id : Nat) : List String → List Value → Heap
  | [], _ => heap
  | name :: names, [] => (heap.define id name .none).defineAll id names []
  | name :: names, value :: values => (heap.define id name value).defineAll id names values

end Heap

end StackScript
