import StackScript.Proofs.Machine.Calls

set_option autoImplicit false

/-!
# Code that is not broken

The machine looks whether jumps stay inside the code, whether instructions have the operands they
need, whether the arguments of a call follow it, and whether a scope that is closed was opened. Code
made from a source text passes all of that, also if the text itself is faulty.
-/
namespace StackScript

/-- A jump, an instruction or the end of a scope is found to be broken. -/
def Diagnostic.isStructural (d : Diagnostic) : Bool :=
  d.code == .invalidJumpTarget || d.code == .malformedInstruction || d.code == .unbalancedScope

theorem Setting.LogOk.not_structural {t : Setting} {log : List Diagnostic} (h : t.LogOk log)
    {d : Diagnostic} (hd : d ∈ log) : d.isStructural = false := by
  obtain ⟨before, after, hsplit⟩ := List.append_of_mem hd
  obtain ⟨hjump, hmalformed, hscope, -⟩ := h before d after hsplit
  simp [Diagnostic.isStructural, hjump, hmalformed, hscope]

/-- No run of compiled code reports that the code is broken, not while it runs and not at its end,
whatever the text, the scope it runs in and the limits, if the functions it finds have generated
code as well. -/
theorem compiled_code_is_never_broken (globals : Globals) (source : String) (scope : Nat)
    (heap : Heap) (limits : Limits) (hheap : heap.Generated) :
    let start := Machine.load (globals.compile source).code scope heap
    (∀ m, start.Reaches limits m → ∀ d ∈ m.log.toList, d.isStructural = false) ∧
    ∀ fuel outcome, start.run limits fuel = some outcome →
      ∀ d ∈ outcome.machine.log.toList, d.isStructural = false := by
  intro start
  have hstart : start.Safe (Setting.calling globals (SyntaxTree.read source).tree heap) :=
    Setting.safe_calling source scope hheap
  refine ⟨fun m hreach d hd => ?_, fun fuel outcome hrun d hd => ?_⟩
  · exact (hreach.safe hstart).ambient.log.not_structural hd
  · exact (hstart.ambient_of_run hrun).log.not_structural hd

set_option maxRecDepth 100000 in
/-- A text with faults in it calls a function that fails, as it branches on an object. -/
theorem compiled_code_is_never_broken_of_faulty_text :
    let test : Statement :=
      .branch default (.object default []) (.block default [.giveBack default none]) none
    let body := Generate.ofStatements {} 0 [.block default [test]] ++ [.plain .exit default]
    let heap : Heap := { Heap.withGlobalScope with closures := #[⟨"f", [], body, 0⟩] }
    let declared := heap.define 0 "f" (.function ⟨0, "f"⟩)
    let source := "\x7b if f() \x7b f(1 +) \x7d else f() ]; \x7d )"
    let start := Machine.load (Globals.compile .empty source).code 0 declared
    (Globals.compile .empty source).diagnostics ≠ [] ∧ declared.Generated ∧
      ∃ outcome, start.run { maxCallDepth := 1 } 100 = some outcome ∧
        Failed outcome.machine.log.toList ∧
        ∀ d ∈ outcome.machine.log.toList, d.isStructural = false := by
  intro test body heap declared source start
  have hheap : declared.Generated := by
    intro closure hclosure
    have hbody : closure.body = body := by
      rw [List.mem_singleton.mp (Array.mem_toList_iff.mpr hclosure)]
    exact ⟨{}, [.block default [test]], default, hbody⟩
  have hends : ((start.run { maxCallDepth := 1 } 100).any
      fun outcome => outcome.machine.log.toList.any (·.isFailure)) = true := by
    decide +kernel
  obtain ⟨outcome, hrun, hfailed⟩ := (Option.any_eq_true _ _).mp hends
  have hintact := compiled_code_is_never_broken .empty source 0 declared { maxCallDepth := 1 } hheap
  exact ⟨fun h => absurd (List.isEmpty_iff.mpr h) (by decide +kernel), hheap, outcome, hrun,
    List.any_eq_true.mp hfailed, hintact.2 100 outcome hrun⟩

end StackScript
