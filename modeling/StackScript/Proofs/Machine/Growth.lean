import StackScript.Proofs.Heap.Scopes
import StackScript.Proofs.Machine.Reach

set_option autoImplicit false

/-!
# Nothing is taken off the heap

Whatever code a machine runs, scopes and closures keep their numbers: a scope lies inside the same
scope for ever, and a closure never changes. Only bindings do.
-/
namespace StackScript

def Progress.machine : Progress → Machine
  | .running machine => machine
  | .finished outcome => outcome.machine

namespace Machine

variable {limits : Limits}

theorem grows_enterEntry (m : Machine) (code : Code) (awaited : Awaited) :
    m.heap.Grows (m.enterEntry code awaited).machine.heap :=
  m.heap.grows_addScope (some m.active.scope)

theorem grows_buildObject (m : Machine) (origin : Span) (built : List (Value × Value))
    (entries : List (Code × Code)) :
    m.heap.Grows (m.buildObject origin built entries).machine.heap := by
  cases entries with
  | nil => exact Heap.Grows.refl m.heap
  | cons entry rest => exact m.grows_enterEntry entry.1 (.key origin built entry.2 rest)

theorem grows_invoke (m : Machine) (callee : Slot) (parameters : List String)
    (arguments : List Value) (origin : Span) (resume : Nat) :
    m.heap.Grows (m.invoke limits callee parameters arguments origin resume).machine.heap := by
  unfold invoke
  split
  · split
    · exact Heap.Grows.refl m.heap
    · split
      · exact Heap.Grows.refl m.heap
      · rename_i closure _
        exact (m.heap.grows_addScope (some closure.scope)).trans (Heap.grows_defineAll _ _ _ _)
  · exact Heap.Grows.refl m.heap

theorem grows_finish (m : Machine) (given : Option Value) :
    m.heap.Grows (m.finish limits given).machine.heap := by
  unfold finish
  split
  · exact Heap.Grows.refl m.heap
  · rename_i caller suspended _
    let resumed : Machine := { m with active := caller.activation, suspended }
    cases hawaited : caller.awaited with
    | arguments callee parameters origin resume =>
      exact resumed.grows_invoke callee parameters _ _ _
    | result origin resume => exact Heap.Grows.refl m.heap
    | key origin built value rest => exact resumed.grows_enterEntry _ _
    | value origin built key rest => exact resumed.grows_buildObject _ _ _

theorem grows_pop (m : Machine) (origin : Span) {go : Slot → Machine → Progress}
    (hgo : ∀ slot stack, m.heap.Grows (go slot (m.setStack stack)).machine.heap) :
    m.heap.Grows (m.pop limits origin go).machine.heap := by
  unfold pop
  split
  · exact hgo _ _
  · exact (m.report _ origin).grows_finish none

theorem grows_popTwo (m : Machine) (origin : Span) {go : Slot → Slot → Machine → Progress}
    (hgo : ∀ top below stack, m.heap.Grows (go top below (m.setStack stack)).machine.heap) :
    m.heap.Grows (m.popTwo limits origin go).machine.heap :=
  m.grows_pop origin fun top stack =>
    (m.setStack stack).grows_pop origin fun below stack => hgo top below stack

theorem grows_withTarget (m : Machine) (instruction : Instruction) {go : Nat → Progress}
    (hgo : ∀ target, m.heap.Grows (go target).machine.heap) :
    m.heap.Grows (m.withTarget limits instruction go).machine.heap := by
  unfold withTarget
  split
  · split
    · exact hgo _
    · exact (m.report _ _).grows_finish none
  · exact (m.report _ _).grows_finish none

theorem grows_jumpIf (m : Machine) (instruction : Instruction) (wanted : Bool) :
    m.heap.Grows (m.jumpIf limits instruction wanted).machine.heap := by
  refine m.grows_withTarget instruction fun target => m.grows_pop _ fun condition stack => ?_
  cases condition.value.toBool with
  | ok truth => cases truth <;> cases wanted <;> exact Heap.Grows.refl m.heap
  | error error => exact Heap.Grows.refl m.heap

theorem grows_store (m : Machine) (keep : Bool) (origin : Span) :
    m.heap.Grows (m.store limits keep origin).machine.heap := by
  refine m.grows_popTwo origin fun stored slot stack => ?_
  cases slot.value with
  | string name => cases keep <;> exact m.heap.grows_define _ name stored.value
  | _ => exact Heap.Grows.refl m.heap

theorem grows_endScope (m : Machine) (origin : Span) :
    m.heap.Grows (m.endScope origin).machine.heap := by
  unfold endScope
  split <;> exact Heap.Grows.refl m.heap

theorem grows_call (m : Machine) (count : Nat) (parameters : List String) (origin : Span) :
    m.heap.Grows (m.call limits count parameters origin).machine.heap := by
  refine m.grows_pop origin fun callee stack => ?_
  dsimp only
  split
  · exact Heap.Grows.refl m.heap
  · exact ((m.setStack stack).report _ origin).grows_finish none

theorem grows_giveBack (m : Machine) : m.heap.Grows (m.giveBack limits).machine.heap := by
  unfold giveBack
  split
  · rename_i slot stack _
    exact (m.setStack stack).grows_finish (some slot.value)
  · exact m.grows_finish (some .none)

theorem grows_loadName (m : Machine) (origin : Span) :
    m.heap.Grows (m.loadName limits origin).machine.heap := by
  refine m.grows_pop origin fun slot stack => ?_
  cases slot.value <;> exact Heap.Grows.refl m.heap

theorem grows_index (m : Machine) (origin : Span) :
    m.heap.Grows (m.index limits origin).machine.heap := by
  refine m.grows_popTwo origin fun key target stack => ?_
  cases target.value <;> exact Heap.Grows.refl m.heap

theorem grows_binary (m : Machine) (origin : Span)
    (operation : Value → Value → Except CoercionError Value) :
    m.heap.Grows (m.binary limits origin operation).machine.heap := by
  refine m.grows_popTwo origin fun right left stack => ?_
  cases operation left.value right.value <;> exact Heap.Grows.refl m.heap

theorem grows_unary (m : Machine) (origin : Span)
    (operation : Value → Except CoercionError Value) :
    m.heap.Grows (m.unary limits origin operation).machine.heap := by
  refine m.grows_pop origin fun operand stack => ?_
  cases operation operand.value <;> exact Heap.Grows.refl m.heap

theorem grows_execute (m : Machine) (instruction : Instruction) :
    m.heap.Grows (m.execute limits instruction).machine.heap := by
  unfold execute
  dsimp only
  split
  case h_1 => exact Heap.Grows.refl m.heap
  case h_2 => exact Heap.Grows.refl m.heap
  case h_3 => exact m.grows_buildObject _ _ _
  case h_4 => exact m.grows_pop _ fun _ _ => Heap.Grows.refl m.heap
  case h_5 => exact m.grows_popTwo _ fun _ _ _ => Heap.Grows.refl m.heap
  case h_6 => exact m.grows_pop _ fun _ _ => Heap.Grows.refl m.heap
  case h_7 => exact m.grows_loadName _
  case h_8 => exact m.grows_store _ _
  case h_9 => exact m.grows_store _ _
  case h_10 => exact m.grows_index _
  case h_11 => exact m.heap.grows_addScope _
  case h_12 => exact m.grows_endScope _
  case h_13 => exact m.grows_withTarget _ fun _ => Heap.Grows.refl m.heap
  case h_14 => exact m.grows_jumpIf _ _
  case h_15 => exact m.grows_jumpIf _ _
  case h_16 => exact m.grows_call _ _ _
  case h_17 => exact m.heap.grows_addClosure _
  case h_18 => exact m.grows_giveBack
  case h_19 => exact m.grows_finish _
  case h_20 => exact Heap.Grows.refl m.heap
  case h_21 =>
    split
    · exact m.grows_binary _ _
    · exact m.grows_unary _ _
    · exact (m.report _ _).grows_finish none

theorem grows_step (limits : Limits) (m : Machine) : m.heap.Grows (m.step limits).machine.heap := by
  unfold step
  split
  · exact m.grows_finish none
  · rename_i instruction _
    obtain ⟨steps, hcharge | hcharge | ⟨limit, hcharge⟩⟩ := charge_cases limits m instruction.origin
    · rw [hcharge]
      exact grows_execute { m with steps } instruction
    · rw [hcharge]
      exact grows_finish { m with steps } none
    · rw [hcharge]
      exact grows_finish (({ m with steps } : Machine).report _ _) none

theorem Reaches.grows {m n : Machine} (h : Reaches limits m n) : m.heap.Grows n.heap := by
  induction h with
  | refl m => exact Heap.Grows.refl m.heap
  | @next m n _ hs _ ih =>
    have hstep := grows_step limits m
    rw [hs] at hstep
    exact hstep.trans ih

-- It can make new scopes, but it changes none.
theorem scope_enterEntry (m : Machine) (code : Code) (awaited : Awaited) {id : Nat}
    (hid : id < m.heap.scopes.size) :
    (m.enterEntry code awaited).machine.heap.scope id = m.heap.scope id :=
  Heap.scope_addScope_of_ne m.heap (some m.active.scope) (Nat.ne_of_lt hid)

theorem scope_buildObject (m : Machine) (origin : Span) (built : List (Value × Value))
    (entries : List (Code × Code)) {id : Nat} (hid : id < m.heap.scopes.size) :
    (m.buildObject origin built entries).machine.heap.scope id = m.heap.scope id := by
  cases entries with
  | nil => rfl
  | cons entry rest => exact m.scope_enterEntry entry.1 (.key origin built entry.2 rest) hid

theorem scope_invoke (m : Machine) (callee : Slot) (parameters : List String)
    (arguments : List Value) (origin : Span) (resume : Nat) {id : Nat}
    (hid : id < m.heap.scopes.size) :
    (m.invoke limits callee parameters arguments origin resume).machine.heap.scope id =
      m.heap.scope id := by
  unfold invoke
  split
  · split
    · rfl
    · split
      · rfl
      · rename_i closure _
        have hne : id ≠ m.heap.scopes.size := Nat.ne_of_lt hid
        exact (Heap.scope_defineAll_of_ne hne _ arguments).trans
          (Heap.scope_addScope_of_ne m.heap (some closure.scope) hne)
  · rfl

theorem scope_finish (m : Machine) (given : Option Value) {id : Nat}
    (hid : id < m.heap.scopes.size) :
    (m.finish limits given).machine.heap.scope id = m.heap.scope id := by
  unfold finish
  split
  · rfl
  · rename_i caller suspended _
    let resumed : Machine := { m with active := caller.activation, suspended }
    cases hawaited : caller.awaited with
    | arguments callee parameters origin resume =>
      exact resumed.scope_invoke callee parameters _ _ _ hid
    | result origin resume => rfl
    | key origin built value rest => exact resumed.scope_enterEntry _ _ hid
    | value origin built key rest => exact resumed.scope_buildObject _ _ _ hid

end Machine

end StackScript
