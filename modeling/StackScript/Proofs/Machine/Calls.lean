import StackScript.Session
import StackScript.Proofs.Binding.Recorded
import StackScript.Proofs.Code.Generation
import StackScript.Proofs.Evaluator.Termination
import StackScript.Proofs.Machine.Frames
import StackScript.Proofs.Machine.Preservation

set_option autoImplicit false

/-!
# How calls bind arguments

A call binds its arguments in a new scope by position. The names are those recorded at the call,
which are the parameters of the function that the callee's name stood for in the text, and the
function's own parameters only if none are recorded.
-/
namespace StackScript

open Code (Placed)
open Generate

namespace Machine

variable {limits : Limits} {m n : Machine}

/-- With this step a call that has its arguments starts a body: the activation that waited for the
arguments waits for the result from then on. -/
def Invokes (limits : Limits) (m n : Machine) (callee : Slot) (recorded : List String) : Prop :=
  ∃ caller origin resume rest, m.step limits = .running n ∧
    m.suspended = ⟨caller, .arguments callee recorded origin resume⟩ :: rest ∧
    n.suspended = ⟨caller, .result origin resume⟩ :: rest

/-- The machine is at the start of a body, in a scope new to the heap `before`, where the names are
bound to the arguments by position and no others are bound. -/
structure StartsBody (n : Machine) (before : Heap) (closure : Closure) (names : List String)
    (arguments : List Value) : Prop where
  code : n.active.code = closure.body
  pointer : n.active.pointer = 0
  stack : n.active.stack = []
  fresh : n.active.scope = before.scopes.size
  enclosing : (n.heap.scope n.active.scope).enclosing = some closure.scope
  bound : names.Nodup → ∀ (i : Nat) (name : String), names[i]? = some name →
    n.heap.binding? n.active.scope name = some (arguments[i]?.getD .none)
  unbound : ∀ name ∉ names, n.heap.binding? n.active.scope name = none
  others : ∀ id ≠ n.active.scope, n.heap.scope id = before.scope id

theorem startsBody_startBody (m : Machine) (closure : Closure) (names : List String)
    (arguments : List Value) (origin : Span) (resume : Nat) :
    (m.startBody closure names arguments origin resume).StartsBody m.heap closure names
      arguments where
  code := rfl
  pointer := rfl
  stack := rfl
  fresh := rfl
  enclosing := by
    have henclosing := Heap.enclosing_defineAll (m.heap.addScope (some closure.scope)).1
      m.heap.scopes.size m.heap.scopes.size names arguments
    rw [Heap.scope_addScope_new] at henclosing
    exact henclosing
  bound hnodup i name hname := by
    have hid : m.heap.scopes.size < (m.heap.addScope (some closure.scope)).1.scopes.size := by
      simp [Heap.addScope]
    exact Heap.binding?_defineAll hid hnodup arguments hname
  unbound name hname := by
    have hbinding := Heap.binding?_defineAll_of_not_mem (m.heap.addScope (some closure.scope)).1
      m.heap.scopes.size m.heap.scopes.size arguments hname
    rw [Heap.binding?_addScope, Heap.binding?_of_size_le (Nat.le_refl _)] at hbinding
    exact hbinding
  others id hid := by
    exact (Heap.scope_defineAll_of_ne hid names arguments).trans
      (Heap.scope_addScope_of_ne m.heap _ hid)

/-- What a call passes on: the values on the stack of the arguments, from the bottom up. -/
def passed (m : Machine) : List Value := m.active.stack.reverse.map (·.value)

theorem passed_prefix {ended : Machine} (h : ended.active.stack <:+ m.active.stack) :
    ended.passed <+: m.passed :=
  (List.reverse_prefix.mpr h).map _

theorem startsBody_of_finish {ended : Machine} {given : Option Value} {caller : Activation}
    {callee : Slot} {recorded : List String} {origin : Span} {resume : Nat} {rest : List Suspended}
    (hfinish : ended.finish limits given = .running n)
    (hbefore : ended.suspended = ⟨caller, .arguments callee recorded origin resume⟩ :: rest)
    (hafter : n.suspended = ⟨caller, .result origin resume⟩ :: rest) :
    ∃ ref closure, callee.value = .function ref ∧ ended.heap.closure? ref = some closure ∧
      n.StartsBody ended.heap closure (if recorded.isEmpty then closure.parameters else recorded)
        ended.passed := by
  simp only [finish, hbefore] at hfinish
  obtain ⟨o, ho, hkept⟩ | ⟨ref, closure, hcallee, hclosure, hstart⟩ := invoke_cases hfinish
  · obtain rfl := Progress.running.inj ho
    simp [hafter] at hkept
  · obtain rfl := Progress.running.inj hstart
    exact ⟨ref, closure, hcallee, hclosure, startsBody_startBody _ _ _ _ _ _⟩

theorem Invokes.startsBody {callee : Slot} {recorded : List String}
    (h : m.Invokes limits n callee recorded) :
    ∃ ref closure arguments, callee.value = .function ref ∧ m.heap.closure? ref = some closure ∧
      arguments <+: m.passed ∧
      (m.active.code.length ≤ m.active.pointer → arguments = m.passed) ∧
      n.StartsBody m.heap closure (if recorded.isEmpty then closure.parameters else recorded)
        arguments := by
  obtain ⟨caller, origin, resume, rest, hstep, hbefore, hafter⟩ := h
  cases hcode : m.active.code[m.active.pointer]? with
  | none =>
    simp only [step, hcode] at hstep
    obtain ⟨ref, closure, hcallee, hclosure, hstarts⟩ := startsBody_of_finish hstep hbefore hafter
    exact ⟨ref, closure, m.passed, hcallee, hclosure, List.prefix_refl _, fun _ => rfl, hstarts⟩
  | some instruction =>
    have hturn := turn_step limits m
    generalize m.step limits = progress at hturn hstep
    cases hturn with
    | stays hkept =>
      obtain rfl := Progress.running.inj hstep
      simp [hbefore, hafter] at hkept
    | enters hmore =>
      obtain rfl := Progress.running.inj hstep
      simp [hbefore, hafter] at hmore
    | @ends ended given hsuspended hheap hsuffix =>
      obtain ⟨ref, closure, hcallee, hclosure, hstarts⟩ :=
        startsBody_of_finish hstep (hsuspended.trans hbefore) hafter
      rw [hheap] at hclosure hstarts
      refine ⟨ref, closure, ended.passed, hcallee, hclosure, passed_prefix hsuffix, ?_, hstarts⟩
      intro hdone
      simp [List.getElem?_eq_none hdone] at hcode

/-- The function that is called with the next step and the names recorded at the call, if the
arguments are done and calls do not nest too deep. -/
def pendingCall? (limits : Limits) (m : Machine) : Option (Closure × List String) :=
  match m.suspended with
  | ⟨caller, .arguments ⟨_, .function ref⟩ recorded _ _⟩ :: _ =>
    if m.active.code.length ≤ m.active.pointer ∧ caller.depth < limits.maxCallDepth then
      (m.heap.closure? ref).map fun closure => (closure, recorded)
    else none
  | _ => none

theorem exists_invokes {closure : Closure} {recorded : List String}
    (h : m.pendingCall? limits = some (closure, recorded)) :
    ∃ n callee ref, m.Invokes limits n callee recorded ∧ callee.value = .function ref ∧
      m.heap.closure? ref = some closure ∧
      n.StartsBody m.heap closure (if recorded.isEmpty then closure.parameters else recorded)
        m.passed := by
  unfold pendingCall? at h
  split at h
  · rename_i caller place ref names origin resume rest hbefore
    split at h
    · rename_i hready
      obtain ⟨found, hclosure, hpair⟩ := Option.map_eq_some_iff.mp h
      obtain ⟨rfl, rfl⟩ := Prod.mk.inj hpair
      let callee : Slot := ⟨place, .function ref⟩
      have hstep : m.step limits = .running (({ m with active := caller, suspended := rest } :
          Machine).startBody found (if names.isEmpty then found.parameters else names) m.passed
            origin resume) := by
        simp only [step, List.getElem?_eq_none hready.1, finish, hbefore]
        exact invoke_eq_startBody names m.passed origin resume rfl hclosure hready.2
      exact ⟨_, callee, ref, ⟨caller, origin, resume, rest, hstep, hbefore, rfl⟩, rfl, hclosure,
        startsBody_startBody _ _ _ _ _ _⟩
    · simp at h
  · simp at h

end Machine

/-- The call whose arguments run is that of the expression with these parts: the code of the
expression stands in that of the activation that waits for the arguments, and this is where it
waits. -/
def Machine.MakesCall (m : Machine) (bound : BoundTree) (node : Node) (called : Expression)
    (arguments : List Expression) : Prop :=
  ∃ caller awaited rest start, m.suspended = ⟨caller, awaited⟩ :: rest ∧
    Placed caller.code start (ofExpression bound (.call node called arguments)) ∧
    caller.pointer = start + (ofExpression bound called).length

/-- Calls are made that stand in the program, with what binding found there, or that code on the heap
has already. -/
def Setting.calling (globals : Globals) (tree : SyntaxTree) (heap : Heap) : Setting :=
  let promised : Discipline :=
    { exact := False
      stores _ _ := True
      calls code place _ recorded :=
        (∃ node called arguments b start,
          (.call node called arguments, b) ∈ globals.visits tree ∧
          Placed code start (ofExpression (globals.bind tree).bound (.call node called arguments)) ∧
          place = start + (ofExpression (globals.bind tree).bound called).length ∧
          recorded = b.parametersOf called) ∨
        ∃ closure ∈ heap.closures, closure.body.Records recorded
      procs _ := True }
  promised.setting heap (fun _ => True) 0

namespace Setting

variable {globals : Globals} {tree : SyntaxTree} {heap : Heap}

theorem heapOk_calling (h : heap.Generated) : (calling globals tree heap).HeapOk heap where
  size_le := Nat.le_refl _
  first_le := Nat.zero_le _
  enclosing _ _ _ _ := .inl trivial
  values _ _ value _ _ := Value.all_of_forall (fun _ => ⟨Nat.zero_le _, False.elim⟩) value
  closures ref closure _ hclosure := by
    have hmem : closure ∈ heap.closures := Array.mem_of_getElem? hclosure
    obtain ⟨bound, body, span, hbody⟩ := h closure hmem
    have hsound : Code.Sound { (calling globals tree heap).toDiscipline with
        calls := fun _ _ _ _ => True } closure.body 0 0 [] := by
      rw [hbody]
      exact SyntaxTree.sound_code ⟨body, span⟩ (fun _ _ => trivial)
        (fun _ _ => ⟨trivial, trivial⟩)
        (fun e _ => Discipline.admits_of_calls (fun _ _ _ _ => trivial) e) False.elim False.elim
    refine ⟨?_, trivial, .inl trivial⟩
    exact hsound.restrict fun names hnames _ _ _ => .inr ⟨closure, hmem, hnames⟩

theorem safe_calling (source : String) (scope : Nat) (h : heap.Generated) :
    (Machine.load (globals.compile source).code scope heap).Safe
      (calling globals (SyntaxTree.read source).tree heap) := by
  have hsound : Code.Sound (calling globals (SyntaxTree.read source).tree heap).toDiscipline
      (globals.compile source).code 0 0 [] := by
    refine SyntaxTree.sound_code _ (fun _ _ => trivial) (fun _ _ => ⟨trivial, trivial⟩)
      (fun e he => ?_) False.elim False.elim
    cases e with
    | call node callee arguments =>
      intro code start hplaced
      obtain ⟨b, hvisit, hfound, -⟩ :=
        Globals.exists_visit_of_call (SyntaxTree.nodup_ids_read source) globals he
      exact .inl ⟨node, callee, arguments, b, start, hvisit, hplaced, rfl, hfound⟩
    | _ => trivial
  exact Machine.safe_load 0 hsound (heapOk_calling h) (.inl trivial)
    fun _ _ _ _ _ hfixed => hfixed.elim

end Setting

end StackScript
