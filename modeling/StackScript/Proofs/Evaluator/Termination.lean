import Mathlib.Data.Set.List
import StackScript.Proofs.Evaluator.Programs
import StackScript.Session

set_option autoImplicit false

/-!
# Programs end

The evaluator is total, so code that follows it ends, also without a limit on steps. What the code
of a program needs for that is that the functions it finds have code made by the generator. The
functions it leaves have, so one text after another can be evaluated.
-/
namespace StackScript

/-- The functions of a heap have code made by the generator. -/
def Heap.Generated (heap : Heap) : Prop :=
  ∀ closure ∈ heap.closures, ∃ bound body span,
    closure.body = Generate.ofStatements bound 0 body ++ [.plain .exit span]

theorem Heap.generated_withGlobalScope : withGlobalScope.Generated := by
  intro closure hclosure
  simp [withGlobalScope, addScope, empty] at hclosure

namespace Direct

theorem generated_heap (world : World) : world.heap.Generated := by
  intro closure hclosure
  obtain ⟨routine, _, rfl⟩ := Array.mem_map.mp hclosure
  exact ⟨routine.bound, routine.body, routine.span, rfl⟩

theorem exists_world_of_generated {heap : Heap} (h : heap.Generated) :
    ∃ world : World, world.heap = heap ∧ world.log = {} := by
  have hrange : heap.closures.toList ∈ Set.range (List.map Routine.closure) := by
    rw [Set.range_list_map]
    intro closure hclosure
    obtain ⟨bound, body, span, hbody⟩ := h closure (Array.mem_toList_iff.mp hclosure)
    exact ⟨⟨closure.name, closure.parameters, body, bound, span, closure.scope⟩,
      by simp [Routine.closure, Routine.code, ← hbody]⟩
  obtain ⟨routines, hroutines⟩ := hrange
  refine ⟨{ scopes := heap, routines := routines.toArray }, ?_, rfl⟩
  simp [World.heap, hroutines]

end Direct

/-- Without a limit on steps every source text runs to an end, however its functions call each
other. The functions it leaves behind are again such that every text runs to an end. -/
theorem compiled_code_halts (globals : Globals) (source : String) (scope maxCallDepth : Nat)
    (heap : Heap) (hheap : heap.Generated) :
    ∃ fuel outcome,
      (Machine.load (globals.compile source).code scope heap).run { maxCallDepth } fuel =
        some outcome ∧ outcome.machine.heap.Generated := by
  obtain ⟨world, rfl, hlog⟩ := Direct.exists_world_of_generated hheap
  have hfree : ({ maxCallDepth } : Limits).stepLimit = none := rfl
  have hends := Direct.ends_code hfree (SyntaxTree.read source).tree
    (Globals.bind globals (SyntaxTree.read source).tree).bound scope world
  obtain ⟨fuel, _, _, _, hrun⟩ := hends.run_eq_some rfl
  have hload : Machine.load (globals.compile source).code scope world.heap =
      (Direct.Host.ofCode (globals.compile source).code scope).machine 0 { world } := by
    simp only [Direct.Host.machine, hlog]
    rfl
  rw [hload]
  exact ⟨fuel, _, hrun, Direct.generated_heap _⟩

/-- A function that does nothing but call itself. -/
theorem compiled_code_halts_endless_recursion :
    let call : Expression := .call default (.name default "f") []
    let body := Generate.ofStatements {} 0 [.expression default call] ++ [.plain .exit default]
    let heap : Heap := { Heap.withGlobalScope with closures := #[⟨"f", [], body, 0⟩] }
    let declared := heap.define 0 "f" (.function ⟨0, "f"⟩)
    declared.Generated ∧ ∃ fuel outcome,
      (Machine.load (Globals.compile NameTable.empty "f();").code 0 declared).run
        { maxCallDepth := 1000000 } fuel = some outcome ∧ outcome.machine.heap.Generated := by
  intro call body heap declared
  have hheap : declared.Generated := by
    intro closure hclosure
    have hbody : closure.body = body := by
      rw [List.mem_singleton.mp (Array.mem_toList_iff.mpr hclosure)]
    exact ⟨{}, [.expression default call], default, hbody⟩
  exact ⟨hheap, compiled_code_halts NameTable.empty "f();" 0 1000000 declared hheap⟩

end StackScript
