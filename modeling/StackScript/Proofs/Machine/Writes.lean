import StackScript.Session
import StackScript.Proofs.Binding.Recorded
import StackScript.Proofs.Code.Generation
import StackScript.Proofs.Machine.Preservation
import StackScript.Proofs.Tree.Holes

set_option autoImplicit false

/-!
# What a run writes

An instruction that stores takes the name from the stack, so that a program writes the variables it
names rests on every value being where the code puts it. That is so until an operation fails. What
fails leaves no value behind, and the next store can then take a text of the program for the name.
-/
namespace StackScript

inductive Heap.Chain (heap : Heap) : Nat → Nat → Prop where
  | self (id : Nat) : Chain heap id id
  | outer {id inner other : Nat} (rest : Chain heap id inner)
      (h : (heap.scope inner).enclosing = some other) : Chain heap id other

/-- No function is a value in the scope or in those around it, nor in an object there. -/
def Heap.FunctionFree (heap : Heap) (scope : Nat) : Prop :=
  ∀ id, heap.Chain scope id → ∀ x value, heap.binding? id x = some value → value.All fun _ => False

/-- A program that runs where no functions are known writes what it names, and parameters of
functions that were declared before it. -/
def Setting.writing (globals : Globals) (tree : SyntaxTree) (heap : Heap) (scope : Nat) :
    Setting :=
  let promised : Discipline :=
    { exact := True
      stores x _ := x ∈ tree.written
      calls _ _ _ names := names = [] ∨ ∃ x, tree.Offers globals x names
      procs names := ∃ x, (x, names) ∈ tree.functions }
  promised.setting heap (heap.Chain scope) heap.closures.size

namespace Setting

variable {globals : Globals} {tree : SyntaxTree} {heap : Heap} {scope : Nat}

theorem not_writes (heap : Heap) (scope : Nat) {x : String} (hx : x ∉ tree.written)
    (hknown : ∀ names, globals.Declares names → x ∉ names) :
    ¬ (writing globals tree heap scope).Writes x := by
  have hown : ∀ f names, (f, names) ∈ tree.functions → x ∉ names := fun f names hf hmem =>
    hx (Statement.mem_listWritten_of_functions (.inr hmem) tree.statements hf)
  rintro (⟨_, hstores⟩ | ⟨_, _, _, names, hcalls, hmem⟩ | ⟨names, ⟨f, hf⟩, hmem⟩)
  · exact hx hstores
  · obtain rfl | ⟨f, hf | hglobal⟩ := hcalls
    · simp at hmem
    · exact hown f names hf hmem
    · exact hknown names ⟨f, hglobal⟩ hmem
  · exact hown f names hf hmem

theorem heapOk_writing (h : heap.FunctionFree scope) :
    (writing globals tree heap scope).HeapOk heap where
  size_le := Nat.le_refl _
  first_le := Nat.le_refl _
  enclosing id outer hid houter := by
    obtain hold | hnew := hid
    · exact .inl (.outer hold houter)
    · have hempty : heap.scope id = {} := Heap.scope_of_size_le hnew
      simp [hempty] at houter
  values id x value hid hvalue := by
    obtain hold | hnew := hid
    · exact (h id hold x value hvalue).mono fun _ hfalse => hfalse.elim
    · have hnone : heap.binding? id x = none := Heap.binding?_of_size_le hnew x
      simp [hnone] at hvalue
  closures ref closure href hclosure := by
    have hnone : heap.closure? ref = none := Array.getElem?_eq_none href
    simp [hnone] at hclosure

theorem safe_writing {source : String} (hclean : (globals.compile source).diagnostics = [])
    (h : heap.FunctionFree scope) :
    (Machine.load (globals.compile source).code scope heap).Safe
      (writing globals (SyntaxTree.read source).tree heap scope) := by
  obtain ⟨hfront, hgaps⟩ := List.append_eq_nil_iff.mp hclean
  have hwhole := SyntaxTree.isWhole_of_read (List.append_eq_nil_iff.mp hfront).1
  have hsound : Code.Sound
      (writing globals (SyntaxTree.read source).tree heap scope).toDiscipline
      (globals.compile source).code 0 0 [] := by
    refine SyntaxTree.sound_code _
      (fun x hx => Statement.listAssigned_subset_written _ hx)
      (fun f hf => ⟨Statement.mem_listWritten_of_functions (.inl rfl) _ hf, f.1, hf⟩)
      (fun e he => ?_) (fun _ => hgaps) (fun _ => hwhole)
    cases e with
    | call node callee arguments =>
      exact fun _ _ _ =>
        (Globals.parameters_of_call (SyntaxTree.nodup_ids_read source) globals he).imp_right
          fun ⟨_, x, _, hoffers⟩ => ⟨x, hoffers⟩
    | _ => trivial
  exact Machine.safe_load 0 hsound (heapOk_writing h) (.inl (.self scope))
    fun _ _ _ _ _ hfixed => hfixed.elim

end Setting

/-- As long as no operation has failed, the bindings of a name that the program does not write stay
as they were, in the scopes there were and in new ones, and so they are at the end of a run in which
none has failed. -/
theorem unwritten_names_keep_bindings (globals : Globals) (source : String) (scope : Nat)
    (heap : Heap) (limits : Limits) (hclean : (globals.compile source).diagnostics = [])
    (hscope : heap.FunctionFree scope) (x : String) (hx : x ∉ (SyntaxTree.read source).tree.written)
    (hknown : ∀ names, globals.Declares names → x ∉ names) :
    let start := Machine.load (globals.compile source).code scope heap
    (∀ m, start.Reaches limits m → ¬ Failed m.log.toList →
      ∀ id, m.heap.binding? id x = heap.binding? id x) ∧
    ∀ fuel outcome, start.run limits fuel = some outcome → ¬ Failed outcome.machine.log.toList →
      ∀ id, outcome.machine.heap.binding? id x = heap.binding? id x := by
  intro start
  have hstart := Setting.safe_writing hclean hscope
  have hwrites := Setting.not_writes heap scope hx hknown
  refine ⟨fun m hreach hfine id => ?_, fun fuel outcome hrun hfine id => ?_⟩
  · exact ((hreach.safe hstart).ambient.framed ⟨trivial, hfine⟩).unwritten x hwrites id
  · obtain ⟨n, hreach, hend⟩ := Machine.reaches_of_run_eq_some hrun
    have hsafe := Machine.safe_step limits (hreach.safe hstart)
    rw [hend] at hsafe
    exact (hsafe.framed ⟨trivial, hfine⟩).unwritten x hwrites id

set_option maxRecDepth 100000 in
/-- A program that assigns, declares a function and calls it leaves a variable of the host alone. -/
theorem unwritten_names_keep_bindings_of_host :
    let source := "let mut x = 1; fn f(a) -> a; x = f(2);"
    let heap := Heap.withGlobalScope.define 0 "y" (.bool true)
    ∃ outcome, (Machine.load (Globals.compile .empty source).code 0 heap).run {} 100 =
        some outcome ∧
      ¬ Failed outcome.machine.log.toList ∧
      ∀ id, outcome.machine.heap.binding? id "y" = heap.binding? id "y" := by
  intro source heap
  have hclean : (Globals.compile .empty source).diagnostics = [] :=
    List.isEmpty_iff.mp (by decide +kernel)
  have hscope : heap.FunctionFree 0 := by
    intro id _ x value hvalue
    obtain rfl | hold := Heap.binding?_define_cases hvalue
    · exact .bool true
    · simp [Heap.binding?_withGlobalScope] at hold
  have hends : (((Machine.load (Globals.compile .empty source).code 0 heap).run {} 100).any
      fun outcome => outcome.machine.log.toList.all fun d => !d.isFailure) = true := by
    decide +kernel
  obtain ⟨outcome, hrun, hfine⟩ := (Option.any_eq_true _ _).mp hends
  have hfine : ¬ Failed outcome.machine.log.toList := by
    rintro ⟨d, hd, hfailure⟩
    simpa [hfailure] using List.all_eq_true.mp hfine d hd
  have hknown : ∀ names, Globals.Declares .empty names → "y" ∉ names :=
    fun names ⟨f, hknows⟩ => absurd hknows (Globals.not_knows_empty f names)
  have hframe := (unwritten_names_keep_bindings .empty source 0 heap {} hclean hscope "y"
    (by decide +kernel) hknown).2
  exact ⟨outcome, hrun, hfine, hframe 100 outcome hrun hfine⟩

set_option maxRecDepth 100000 in
/-- The call of something that is no function leaves no value, so the store takes the name of the
variable for the value and the text before it for the name. -/
theorem failed_call_writes_unnamed_variable :
    let source := "let a; \"zzz\"; let x = a();"
    let heap := Heap.withGlobalScope
    (Globals.compile .empty source).diagnostics = [] ∧ heap.FunctionFree 0 ∧
      "zzz" ∉ (SyntaxTree.read source).tree.written ∧
      ∃ outcome, (Machine.load (Globals.compile .empty source).code 0 heap).run {} 100 =
          some outcome ∧
        (outcome.machine.heap.binding? 0 "zzz").isSome ∧ heap.binding? 0 "zzz" = none := by
  intro source heap
  have hends : (((Machine.load (Globals.compile .empty source).code 0 heap).run {} 100).any
      fun outcome => (outcome.machine.heap.binding? 0 "zzz").isSome) = true := by
    decide +kernel
  obtain ⟨outcome, hrun, hbound⟩ := (Option.any_eq_true _ _).mp hends
  refine ⟨List.isEmpty_iff.mp (by decide +kernel), fun id _ x value hvalue => ?_,
    by decide +kernel, outcome, hrun, hbound, Heap.binding?_withGlobalScope 0 "zzz"⟩
  simp [heap, Heap.binding?_withGlobalScope] at hvalue

end StackScript
