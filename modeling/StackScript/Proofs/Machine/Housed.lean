import StackScript.Proofs.Machine.Effects
import StackScript.Proofs.Machine.Growth

set_option autoImplicit false

/-!
# Scopes that are there

In a housed machine every scope that something refers to is on the heap: the scopes in which
activations stand and those in which functions were made. A scope lies only inside older ones, so
every chain of scopes ends. All steps of all code keep it so.
-/
namespace StackScript

structure Heap.Housed (heap : Heap) : Prop where
  enclosing : ∀ id outer, (heap.scope id).enclosing = some outer → outer < id
  closures : ∀ closure ∈ heap.closures, closure.scope < heap.scopes.size

structure Machine.Housed (m : Machine) : Prop where
  heap : m.heap.Housed
  active : m.active.scope < m.heap.scopes.size
  suspended : ∀ s ∈ m.suspended, s.activation.scope < m.heap.scopes.size

namespace Heap

variable {heap : Heap}

theorem size_addScope (heap : Heap) (outer : Option Nat) :
    (heap.addScope outer).1.scopes.size = heap.scopes.size + 1 := by
  simp [addScope]

theorem housed_withGlobalScope : withGlobalScope.Housed where
  enclosing id outer houter := by
    by_cases hid : id = empty.scopes.size
    · subst hid
      rw [withGlobalScope, scope_addScope_new] at houter
      simp at houter
    · rw [withGlobalScope, scope_addScope_of_ne empty none hid, scope_of_size_le (Nat.zero_le id)]
        at houter
      simp at houter
  closures closure hclosure := by simp [withGlobalScope, addScope, empty] at hclosure

theorem Housed.addScope (h : heap.Housed) {outer : Nat} (houter : outer < heap.scopes.size) :
    (heap.addScope (some outer)).1.Housed where
  enclosing id other hother := by
    by_cases hid : id = heap.scopes.size
    · subst hid
      rw [scope_addScope_new] at hother
      exact Option.some.inj hother ▸ houter
    · rw [scope_addScope_of_ne heap _ hid] at hother
      exact h.enclosing id other hother
  closures closure hclosure := by
    have hlt := h.closures closure hclosure
    rw [size_addScope]
    omega

theorem Housed.define (h : heap.Housed) (id : Nat) (name : String) (value : Value) :
    (heap.define id name value).Housed where
  enclosing other outer houter := by
    rw [enclosing_define] at houter
    exact h.enclosing other outer houter
  closures closure hclosure := by
    rw [size_define]
    exact h.closures closure hclosure

theorem Housed.defineAll (h : heap.Housed) (id : Nat) (names : List String) (values : List Value) :
    (heap.defineAll id names values).Housed := by
  induction names generalizing heap values with
  | nil => exact h
  | cons name names ih =>
    cases values with
    | nil => exact ih (h.define id name .none) []
    | cons value values => exact ih (h.define id name value) values

theorem Housed.addClosure (h : heap.Housed) {closure : Closure}
    (hscope : closure.scope < heap.scopes.size) : (heap.addClosure closure).1.Housed where
  enclosing := h.enclosing
  closures other hother := by
    obtain hold | rfl := Array.mem_push.mp hother
    · exact h.closures other hold
    · exact hscope

end Heap

namespace Machine

variable {limits : Limits} {m : Machine}

theorem Housed.later (h : m.Housed) {heap : Heap} (hgrows : m.heap.Grows heap)
    (hheap : heap.Housed) : ({ m with heap } : Machine).Housed :=
  ⟨hheap, Nat.lt_of_lt_of_le h.active hgrows.size_le,
    fun s hs => Nat.lt_of_lt_of_le (h.suspended s hs) hgrows.size_le⟩

theorem Housed.enter (h : m.Housed) {activation : Activation} (awaited : Awaited)
    (hscope : activation.scope < m.heap.scopes.size) :
    (m.enter activation awaited).machine.Housed := by
  refine ⟨h.heap, hscope, fun s hs => ?_⟩
  obtain rfl | hold := List.mem_cons.mp hs
  · exact h.active
  · exact h.suspended s hold

theorem Housed.enterEntry (h : m.Housed) (code : Code) (awaited : Awaited) :
    (m.enterEntry code awaited).machine.Housed := by
  have hgrows := m.heap.grows_addScope (some m.active.scope)
  have hlater := h.later hgrows (h.heap.addScope h.active)
  refine hlater.enter awaited ?_
  show m.heap.scopes.size < (m.heap.addScope (some m.active.scope)).1.scopes.size
  rw [Heap.size_addScope]
  omega

theorem Housed.buildObject (h : m.Housed) (origin : Span) (built : List (Value × Value))
    (entries : List (Code × Code)) : (m.buildObject origin built entries).machine.Housed := by
  cases entries with
  | nil => exact ⟨h.heap, h.active, h.suspended⟩
  | cons entry rest => exact h.enterEntry _ _

theorem Housed.invoke (h : m.Housed) (callee : Slot) (names : List String) (arguments : List Value)
    (origin : Span) (resume : Nat) :
    (m.invoke limits callee names arguments origin resume).machine.Housed := by
  unfold Machine.invoke
  split
  · split
    · exact ⟨h.heap, h.active, h.suspended⟩
    · split
      · exact ⟨h.heap, h.active, h.suspended⟩
      · rename_i closure hclosure
        have hscope := h.heap.closures closure (Array.mem_of_getElem? hclosure)
        have hgrows := m.heap.grows_addScope (some closure.scope)
        have hinner := (h.heap.addScope hscope).defineAll m.heap.scopes.size
          (if names.isEmpty then closure.parameters else names) arguments
        refine (h.later (hgrows.trans (Heap.grows_defineAll _ _ _ _)) hinner).enter _ ?_
        have hsize := (Heap.grows_defineAll (m.heap.addScope (some closure.scope)).1
          m.heap.scopes.size (if names.isEmpty then closure.parameters else names)
          arguments).size_le
        rw [Heap.size_addScope] at hsize
        exact hsize
  · exact ⟨h.heap, h.active, h.suspended⟩

theorem Housed.finish (h : m.Housed) (given : Option Value) :
    (m.finish limits given).machine.Housed := by
  unfold Machine.finish
  split
  · exact h
  · rename_i caller suspended hsuspended
    have hold : ∀ s ∈ caller :: suspended, s.activation.scope < m.heap.scopes.size :=
      hsuspended ▸ h.suspended
    have hresumed : ({ m with active := caller.activation, suspended } : Machine).Housed :=
      ⟨h.heap, hold caller List.mem_cons_self, fun s hs => hold s (List.mem_cons_of_mem _ hs)⟩
    dsimp only
    cases caller.awaited with
    | arguments callee names origin resume => exact hresumed.invoke _ _ _ _ _
    | result origin resume => exact ⟨hresumed.heap, hresumed.active, hresumed.suspended⟩
    | key origin built value rest => exact hresumed.enterEntry _ _
    | value origin built key rest => exact hresumed.buildObject _ _ _

theorem Housed.of_effect {instruction : Instruction} {progress : Progress} (h : m.Housed)
    (heffect : Effect limits m instruction progress) : progress.machine.Housed := by
  cases heffect with
  | goes pointer_eq _ => exact ⟨h.heap, h.active, h.suspended⟩
  | stores name value =>
    have hdefined := h.heap.define ((m.heap.owner? m.active.scope name).getD m.active.scope) name
      value
    have hlater := h.later (m.heap.grows_define _ name value) hdefined
    exact ⟨hlater.heap, hlater.active, hlater.suspended⟩
  | opens =>
    have hlater := h.later (m.heap.grows_addScope (some m.active.scope)) (h.heap.addScope h.active)
    refine ⟨hlater.heap, ?_, hlater.suspended⟩
    show m.heap.scopes.size < (m.heap.addScope (some m.active.scope)).1.scopes.size
    rw [Heap.size_addScope]
    omega
  | closes enclosing scopeDepth_eq =>
    exact ⟨h.heap, Nat.lt_trans (h.heap.enclosing _ _ enclosing) h.active, h.suspended⟩
  | makes name parameters body =>
    have hmade : (m.heap.addClosure ⟨name, parameters, body, m.active.scope⟩).1.Housed :=
      h.heap.addClosure h.active
    exact ⟨hmade, h.active, h.suspended⟩
  | @builds stack entries operand =>
    have hset : (m.setStack stack).Housed := ⟨h.heap, h.active, h.suspended⟩
    exact hset.buildObject _ _ _
  | @calls callee stack count names operand inside =>
    have hset : (m.setStack stack).Housed := ⟨h.heap, h.active, h.suspended⟩
    exact hset.enter _ h.active
  | ends given _ =>
    refine Housed.finish ?_ given
    exact ⟨h.heap, h.active, h.suspended⟩

theorem housed_step (limits : Limits) (h : m.Housed) : (m.step limits).machine.Housed := by
  have hcounted : ∀ steps log, ({ m with steps, log } : Machine).Housed :=
    fun _ _ => ⟨h.heap, h.active, h.suspended⟩
  have hadvances := advances_step limits m
  generalize m.step limits = progress at hadvances
  cases hadvances with
  | executes _ derives => exact (hcounted _ m.log).of_effect derives.effect
  | stops => exact (hcounted _ m.log).finish none
  | overruns limit _ => exact (hcounted _ _).finish none

theorem Reaches.housed {n : Machine} (hreach : Reaches limits m n) (h : m.Housed) : n.Housed :=
  hreach.invariant Housed (fun a b ha hstep => by
    have hb := housed_step limits ha
    rwa [hstep] at hb) h

theorem Housed.of_run {fuel : Nat} {outcome : Outcome} (h : m.Housed)
    (hrun : m.run limits fuel = some outcome) : outcome.machine.Housed := by
  obtain ⟨n, hreach, hend⟩ := reaches_of_run_eq_some hrun
  have hfinal := housed_step limits (hreach.housed h)
  rwa [hend] at hfinal

theorem housed_load {heap : Heap} (h : heap.Housed) (code : Code) {scope : Nat}
    (hscope : scope < heap.scopes.size) : (load code scope heap).Housed :=
  ⟨h, hscope, by simp [load]⟩

end Machine

end StackScript
