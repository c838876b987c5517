import StackScript.Proofs.Machine.Calls
import StackScript.Proofs.Tree.Holes

set_option autoImplicit false

/-!
# Whose names a call binds

Main statement: `calls_bind_recorded_names`. The names that a call of a name binds are the
parameters of the function declaration that binding found for the name there. They are those of the
function that is called as long as no operation has failed, unless the name is used for more than
functions with these parameters.
-/
namespace StackScript

open Code (Placed)
open Generate

/-- The name stands only for functions with these parameters: no variable and no parameter has it,
and functions of this name have no other parameters. -/
def SyntaxTree.Fixes (tree : SyntaxTree) (x : String) (names : List String) : Prop :=
  x ∉ tree.assigned ∧ ∀ f ∈ tree.functions, x ∉ f.2 ∧ (f.1 = x → f.2 = names)

/-- The texts that have been run, last first, what their runs have reported, and what is known and
stored afterwards. Nothing was reported in their compilation, and there were no functions at the
start. -/
inductive History : List String → List Diagnostic → Globals → Heap → Prop where
  | fresh {heap : Heap} (hfree : heap.Functionless) : History [] [] .empty heap
  | next {texts : List String} {reports : List Diagnostic} {globals : Globals} {heap : Heap}
      {source : String} {scope : Nat} {limits : Limits} {fuel : Nat} {outcome : Outcome}
      (h : History texts reports globals heap)
      (hclean : (globals.compile source).diagnostics = [])
      (hrun : (Machine.load (globals.compile source).code scope heap).run limits fuel =
        some outcome) :
      History (source :: texts) (reports ++ outcome.machine.log.toList)
        (globals.compile source).globals outcome.machine.heap

/-- The texts fix the name, and no operation has failed that could have bound it to something else. -/
def FixedBy (texts : List String) (reports : List Diagnostic) (x : String) (names : List String) :
    Prop :=
  ¬ Failed reports ∧ ∀ text ∈ texts, (SyntaxTree.read text).tree.Fixes x names

theorem FixedBy.earlier {texts : List String} {reports : List Diagnostic} {source x : String}
    {names : List String} (h : FixedBy (source :: texts) reports x names) :
    FixedBy texts reports x names :=
  ⟨h.1, fun text htext => h.2 text (List.mem_cons_of_mem _ htext)⟩

theorem failed_append {before after : List Diagnostic} :
    Failed (before ++ after) ↔ Failed before ∨ Failed after := by
  simp only [Failed, List.mem_append, or_and_right, exists_or]

namespace Setting

variable {texts : List String} {reports : List Diagnostic} {globals : Globals} {heap : Heap}
  {source : String}

/-- Names that are fixed are bound to nothing but functions made with these parameters, and names
are recorded only at calls of names, where those of a fixed name are its parameters. -/
def naming (texts : List String) (reports : List Diagnostic) (heap : Heap) : Setting where
  exact := True
  stores x entry := ∀ names, FixedBy texts reports x names → entry = .made names
  calls code place callee recorded :=
    (∀ x names, FixedBy texts reports x names → x ∉ recorded) ∧
    (recorded = [] ∨ ∃ bound node position x arguments start,
      Placed code start (ofExpression bound (.call node (.name position x) arguments)) ∧
      place = start + (ofExpression bound (.name position x)).length ∧ callee = .bound x ∧
      ∀ names, FixedBy texts reports x names → recorded = names)
  procs parameters := ∀ x names, FixedBy texts reports x names → x ∉ parameters
  base := heap
  old _ := True
  first := 0
  fixed := FixedBy texts reports
  made_of_stores hfixed hstores := hstores _ hfixed
  not_mem_of_calls hfixed hcalls := hcalls.1 _ _ hfixed
  not_mem_of_procs hfixed hprocs := hprocs _ _ hfixed

theorem open_naming : (naming texts reports heap).Open := ⟨fun _ => trivial, rfl⟩

theorem naming_weakens {later : List String} {moreReports : List Diagnostic} {laterHeap : Heap}
    (h : ∀ x names, FixedBy later moreReports x names → FixedBy texts reports x names) :
    (naming texts reports heap).Weakens (naming later moreReports laterHeap).toDiscipline where
  exact := id
  stores x entry hstores names hfixed := hstores names (h x names hfixed)
  calls code place callee recorded := by
    rintro ⟨hnot, hnames⟩
    refine ⟨fun x names hfixed => hnot x names (h x names hfixed), hnames.imp_right ?_⟩
    rintro ⟨bound, node, position, x, arguments, start, hplaced, hplace, hcallee, hown⟩
    exact ⟨bound, node, position, x, arguments, start, hplaced, hplace, hcallee,
      fun names hfixed => hown names (h x names hfixed)⟩
  procs parameters hprocs x names hfixed := hprocs x names (h x names hfixed)

end Setting

/-- What texts that were run without a failure leave behind: variables of fixed names have functions
with these parameters, and whatever function is known by name was declared in one of the texts. -/
structure Accounted (texts : List String) (reports : List Diagnostic) (globals : Globals)
    (heap : Heap) : Prop where
  ordered : (Setting.naming texts reports heap).HeapOk heap
  suited : ∀ id x value, heap.binding? id x = some value →
    (Setting.naming texts reports heap).Suits heap x value
  known : ∀ x names, globals.Knows x names →
    ∃ text ∈ texts, (x, names) ∈ (SyntaxTree.read text).tree.functions

namespace Accounted

variable {texts : List String} {reports : List Diagnostic} {globals : Globals} {heap : Heap}
  {source : String}

theorem fresh (hfree : heap.Functionless) : Accounted [] [] .empty heap where
  ordered := hfree.heapOk Setting.open_naming rfl
  suited id x value hvalue names _ ref href := by
    have hnone := hfree.values id x value hvalue
    rw [href] at hnone
    cases hnone with
    | function h => exact h.elim
  known x names hknows := (Globals.not_knows_empty x names hknows).elim

theorem offered (h : Accounted texts reports globals heap) {x : String} {names : List String}
    (hoffers : (SyntaxTree.read source).tree.Offers globals x names) :
    ∃ text ∈ source :: texts, (x, names) ∈ (SyntaxTree.read text).tree.functions := by
  cases hoffers with
  | inl hdeclared => exact ⟨source, List.mem_cons_self, hdeclared⟩
  | inr hknown =>
    obtain ⟨text, htext, hmem⟩ := h.known x names hknown
    exact ⟨text, List.mem_cons_of_mem _ htext, hmem⟩

theorem admits (h : Accounted texts reports globals heap) {e : Expression}
    (he : e ∈ (SyntaxTree.read source).tree.expressions) :
    (Setting.naming (source :: texts) reports heap).Admits
      (globals.bind (SyntaxTree.read source).tree).bound e := by
  cases e with
  | call node callee arguments =>
    intro code start hplaced
    have hfound := Globals.parameters_of_call (SyntaxTree.nodup_ids_read source) globals he
    generalize (globals.bind (SyntaxTree.read source).tree).bound = bound at hfound hplaced ⊢
    obtain hnone | ⟨position, x, rfl, hoffers⟩ := hfound
    · rw [hnone]
      exact ⟨fun x names _ => List.not_mem_nil, .inl rfl⟩
    · obtain ⟨text, htext, hmem⟩ := h.offered hoffers
      refine ⟨fun y names hfixed => ((hfixed.2 text htext).2 _ hmem).1, .inr ?_⟩
      exact ⟨bound, node, position, x, arguments, start, hplaced, rfl, rfl,
        fun names hfixed => ((hfixed.2 text htext).2 _ hmem).2 rfl⟩
  | _ => trivial

theorem safe (h : Accounted texts reports globals heap)
    (hclean : (globals.compile source).diagnostics = []) (scope : Nat) :
    (Machine.load (globals.compile source).code scope heap).Safe
      (Setting.naming (source :: texts) reports heap) := by
  obtain ⟨hfront, hgaps⟩ := List.append_eq_nil_iff.mp hclean
  have hwhole := SyntaxTree.isWhole_of_read (List.append_eq_nil_iff.mp hfront).1
  have hsound : Code.Sound (Setting.naming (source :: texts) reports heap).toDiscipline
      (globals.compile source).code 0 0 [] := by
    refine SyntaxTree.sound_code _ (fun x hx names hfixed => ?_) (fun f hf => ⟨?_, ?_⟩)
      (fun e he => h.admits he) (fun _ => hgaps) (fun _ => hwhole)
    · exact absurd hx (hfixed.2 source List.mem_cons_self).1
    · intro names hfixed
      rw [((hfixed.2 source List.mem_cons_self).2 f hf).2 rfl]
    · exact fun x names hfixed => ((hfixed.2 source List.mem_cons_self).2 f hf).1
  have hheap : (Setting.naming (source :: texts) reports heap).HeapOk heap :=
    h.ordered.rebase (Setting.naming_weakens fun _ _ => FixedBy.earlier) Setting.open_naming
      Setting.open_naming rfl
  refine Machine.safe_load 0 hsound hheap (.inl trivial) fun id x value hvalue names hfixed => ?_
  exact h.suited id x value hvalue names hfixed.earlier

theorem next (h : Accounted texts reports globals heap)
    (hclean : (globals.compile source).diagnostics = []) {scope fuel : Nat} {limits : Limits}
    {outcome : Outcome}
    (hrun : (Machine.load (globals.compile source).code scope heap).run limits fuel =
      some outcome) :
    Accounted (source :: texts) (reports ++ outcome.machine.log.toList)
      (globals.compile source).globals outcome.machine.heap := by
  have hambient := (h.safe hclean scope).ambient_of_run hrun
  have hsofar : ∀ {x names},
      FixedBy (source :: texts) (reports ++ outcome.machine.log.toList) x names →
      FixedBy (source :: texts) reports x names :=
    fun hfixed => ⟨fun hfailed => hfixed.1 (failed_append.mpr (.inl hfailed)), hfixed.2⟩
  refine ⟨?_, fun id x value hvalue names hfixed => ?_, fun x names hknows => ?_⟩
  · exact hambient.heap.rebase (Setting.naming_weakens fun _ _ => hsofar) Setting.open_naming
      Setting.open_naming rfl
  · have hlive : (Setting.naming (source :: texts) reports heap).Live outcome.machine.log :=
      ⟨trivial, fun hfailed => hfixed.1 (failed_append.mpr (.inr hfailed))⟩
    exact (hambient.framed hlive).suited id x value hvalue names (hsofar hfixed)
  · exact h.offered (Globals.offers_of_knows_bind hknows)

end Accounted

theorem History.accounted {texts : List String} {reports : List Diagnostic} {globals : Globals}
    {heap : Heap} (h : History texts reports globals heap) :
    Accounted texts reports globals heap := by
  induction h with
  | fresh hfree => exact .fresh hfree
  | next _ hclean hrun ih => exact ih.next hclean hrun

namespace Machine

variable {globals : Globals} {source : String} {scope : Nat} {heap : Heap} {limits : Limits}
  {m n : Machine} {callee : Slot} {recorded : List String}

/-- The name at which the code stands that comes before the place where arguments are awaited, if it
is the code of a name. -/
def calledName? (m : Machine) : Option String :=
  match m.suspended with
  | ⟨caller, _⟩ :: _ =>
    match caller.code[caller.pointer - 2]? with
    | some (.mk .push (some (.value (.string x))) _) => some x
    | _ => none
  | [] => none

theorem MakesCall.calledName?_eq {bound : BoundTree} {node position : Node} {x : String}
    {passed : List Expression} (h : m.MakesCall bound node (.name position x) passed) :
    m.calledName? = some x := by
  obtain ⟨caller, awaited, rest, start, hsuspended, hplaced, hplace⟩ := h
  have hpush : caller.code[start]? = some (pushName x position.span) := hplaced.getElem?
  have hstart : caller.pointer - 2 = start := by rw [hplace]; rfl
  simp [calledName?, hsuspended, hstart, hpush, pushName, Instruction.push]

theorem Invokes.recorded_eq (h : m.Invokes limits n callee recorded)
    (hreach : (Machine.load (globals.compile source).code scope heap).Reaches limits m)
    (hheap : heap.Generated) :
    (∃ node called passed b,
      (.call node called passed, b) ∈ globals.visits (SyntaxTree.read source).tree ∧
      m.MakesCall (globals.bind (SyntaxTree.read source).tree).bound node called passed ∧
      recorded = b.parametersOf called) ∨
    ∃ old ∈ heap.closures, old.body.Records recorded := by
  obtain ⟨caller, origin, resume, rest, _, hbefore, _⟩ := h
  have hsafe := hreach.safe (Setting.safe_calling source scope hheap)
  obtain ⟨_, ⟨_, hcalls, _⟩, _⟩ :=
    (hsafe.ambient.suspended ⟨caller, .arguments callee recorded origin resume⟩
      (hbefore ▸ List.mem_cons_self)).awaited
  refine hcalls.imp_left ?_
  rintro ⟨node, called, passed, b, start, hvisit, hplaced, hplace, hfound⟩
  exact ⟨node, called, passed, b, hvisit, ⟨caller, _, rest, start, hbefore, hplaced, hplace⟩, hfound⟩

/-- The names that are bound are the function's own, unless the call is of a name that is not
fixed. -/
theorem Invokes.own_or_unfixed {texts : List String} {reports : List Diagnostic}
    {ref : FunctionRef} {closure : Closure} (h : m.Invokes limits n callee recorded)
    (hreach : (Machine.load (globals.compile source).code scope heap).Reaches limits m)
    (hhistory : History texts reports globals heap)
    (hclean : (globals.compile source).diagnostics = [])
    (hfailed : ¬ Failed (reports ++ m.log.toList)) (hcallee : callee.value = .function ref)
    (hclosure : m.heap.closure? ref = some closure) :
    (if recorded.isEmpty then closure.parameters else recorded) = closure.parameters ∨
    ∃ bound node position x passed, m.MakesCall bound node (.name position x) passed ∧
      ∀ names, ∃ text ∈ source :: texts, ¬ (SyntaxTree.read text).tree.Fixes x names := by
  obtain ⟨caller, origin, resume, rest, _, hbefore, _⟩ := h
  rw [failed_append, not_or] at hfailed
  have hsafe := hreach.safe (hhistory.accounted.safe hclean scope)
  obtain ⟨_, ⟨entry, hcalls, hfits⟩, _⟩ :=
    (hsafe.ambient.suspended ⟨caller, .arguments callee recorded origin resume⟩
      (hbefore ▸ List.mem_cons_self)).awaited
  obtain rfl | ⟨bound, node, position, x, passed, start, hplaced, hplace, rfl, hown⟩ := hcalls.2
  · exact .inl rfl
  by_cases hfixes : ∃ names, ∀ text ∈ source :: texts, (SyntaxTree.read text).tree.Fixes x names
  · -- The callee was stored under a fixed name, so it was made with the names recorded here.
    obtain ⟨names, hfixes⟩ := hfixes
    have hfixed : FixedBy (source :: texts) reports x names := ⟨hfailed.1, hfixes⟩
    obtain ⟨made, hmade, hparameters⟩ := hfits ⟨trivial, hfailed.2⟩ names hfixed ref hcallee
    obtain rfl : made = closure := Option.some.inj (hmade.symm.trans hclosure)
    refine .inl ?_
    rw [hown names hfixed, hparameters, ite_self]
  · push Not at hfixes
    exact .inr ⟨bound, node, position, x, passed,
      ⟨caller, _, rest, start, hbefore, hplaced, hplace⟩, hfixes⟩

end Machine

/-- A call that has its arguments, whose callee is a function and which is not too deep, starts the
function's body. Whichever function the callee has become, the body starts in a new scope inside the
function's own, and in that scope the names recorded at the call are bound by position; only if none
are recorded they are the function's own parameters.

If the callee is a name, the names recorded are the parameters of the function declaration that
binding found for it when it came to the call, and otherwise none are. So they are the function's
own if the name is declared once, and is no variable and no parameter: in texts that compile without
a report, and until an operation fails. -/
theorem calls_bind_recorded_names (globals : Globals) (source : String) (scope : Nat) (heap : Heap)
    (limits : Limits) {m : Machine}
    (hreach : (Machine.load (globals.compile source).code scope heap).Reaches limits m) :
    (∀ closure recorded, m.pendingCall? limits = some (closure, recorded) →
      ∃ n callee, m.Invokes limits n callee recorded) ∧
    ∀ n callee recorded, m.Invokes limits n callee recorded →
      (∃ ref closure arguments, callee.value = .function ref ∧ m.heap.closure? ref = some closure ∧
        arguments <+: m.passed ∧
        (m.active.code.length ≤ m.active.pointer → arguments = m.passed) ∧
        n.StartsBody m.heap closure (if recorded.isEmpty then closure.parameters else recorded)
          arguments ∧
        ∀ texts reports, History texts reports globals heap →
          (globals.compile source).diagnostics = [] → ¬ Failed (reports ++ m.log.toList) →
          n.StartsBody m.heap closure closure.parameters arguments ∨
          ∃ bound node position x passed, m.MakesCall bound node (.name position x) passed ∧
            ∀ names, ∃ text ∈ source :: texts, ¬ (SyntaxTree.read text).tree.Fixes x names) ∧
      (heap.Generated →
        (∃ node called passed b,
          (.call node called passed, b) ∈ globals.visits (SyntaxTree.read source).tree ∧
          m.MakesCall (globals.bind (SyntaxTree.read source).tree).bound node called passed ∧
          recorded = b.parametersOf called) ∨
        ∃ old ∈ heap.closures, old.body.Records recorded) := by
  refine ⟨fun closure recorded hpending => ?_, fun n callee recorded hinvokes =>
    ⟨?_, hinvokes.recorded_eq hreach⟩⟩
  · obtain ⟨n, callee, _, hinvokes, _⟩ := Machine.exists_invokes hpending
    exact ⟨n, callee, hinvokes⟩
  · obtain ⟨ref, closure, arguments, hcallee, hclosure, hpassed, hall, hstarts⟩ :=
      hinvokes.startsBody
    refine ⟨ref, closure, arguments, hcallee, hclosure, hpassed, hall, hstarts, ?_⟩
    intro texts reports hhistory hclean hfailed
    refine (hinvokes.own_or_unfixed hreach hhistory hclean hfailed hcallee hclosure).imp_left ?_
    intro hown
    rwa [hown] at hstarts

set_option maxRecDepth 100000 in
/-- The name `f` is declared once, `g` twice. -/
theorem calls_bind_own_names_of_function_declared_once :
    let source := "fn f(a, b) -> a; fn g(p) -> p; fn g(q) -> q; f(g, 1)"
    ∃ m n callee ref closure arguments,
      (Machine.load (Globals.compile .empty source).code 0 Heap.withGlobalScope).Reaches {} m ∧
      m.Invokes {} n callee ["a", "b"] ∧ callee.value = .function ref ∧
      m.heap.closure? ref = some closure ∧ arguments = m.passed ∧ m.passed.length = 2 ∧
      n.StartsBody m.heap closure closure.parameters arguments := by
  intro source
  have hcall : (((Machine.load (Globals.compile .empty source).code 0 Heap.withGlobalScope).after {}
      15).any fun m => (m.pendingCall? {}).any fun call =>
        call.2 == ["a", "b"] && m.passed.length == 2 && m.log.toList.isEmpty &&
          m.calledName? == some "f" && m.active.code.length ≤ m.active.pointer) = true := by
    decide +kernel
  obtain ⟨m, hafter, hpending⟩ := (Option.any_eq_true _ _).mp hcall
  obtain ⟨⟨found, recorded⟩, hpending, hnames⟩ := (Option.any_eq_true _ _).mp hpending
  obtain ⟨⟨⟨⟨rfl, hpassed⟩, hlog⟩, hname⟩, hdone⟩ : (((recorded = ["a", "b"] ∧
      m.passed.length = 2) ∧ m.log.toList = []) ∧ m.calledName? = some "f") ∧
      m.active.code.length ≤ m.active.pointer := by
    simpa using hnames
  have hreach := Machine.reaches_after hafter
  have hcalls := calls_bind_recorded_names .empty source 0 Heap.withGlobalScope {} hreach
  obtain ⟨n, callee, hinvokes⟩ := hcalls.1 found _ hpending
  obtain ⟨⟨ref, closure, arguments, hcallee, hclosure, _, hall, _, hown⟩, _⟩ :=
    hcalls.2 n callee _ hinvokes
  have hclean : (Globals.compile .empty source).diagnostics = [] :=
    List.isEmpty_iff.mp (by decide +kernel)
  have hfixes : (SyntaxTree.read source).tree.Fixes "f" ["a", "b"] := by
    unfold SyntaxTree.Fixes
    decide +kernel
  refine ⟨m, n, callee, ref, closure, arguments, hreach, hinvokes, hcallee, hclosure, hall hdone,
    hpassed, ?_⟩
  obtain hstarts | ⟨bound, node, position, x, passed, hmakes, hunfixed⟩ :=
    hown [] [] (.fresh Heap.functionless_withGlobalScope) hclean (by simp [hlog, Failed])
  · exact hstarts
  · obtain rfl : "f" = x := Option.some.inj (hname.symm.trans hmakes.calledName?_eq)
    obtain ⟨text, htext, hnot⟩ := hunfixed ["a", "b"]
    obtain rfl : text = source := by simpa using htext
    exact absurd hfixes hnot

set_option maxRecDepth 100000 in
/-- The call in `h` was compiled for the first `f`; when it is made the name stands for the second,
whose parameter is then not bound at all. -/
theorem redeclared_function_leaves_parameter_unbound :
    let source := "fn f(a) -> a; fn h() -> f(1); fn f(b) -> b; h()"
    (Globals.compile .empty source).diagnostics = [] ∧
    ∃ m n callee recorded ref closure,
      (Machine.load (Globals.compile .empty source).code 0 Heap.withGlobalScope).Reaches {} m ∧
      m.Invokes {} n callee recorded ∧ callee.value = .function ref ∧
      m.heap.closure? ref = some closure ∧ closure.parameters = ["b"] ∧
      n.heap.binding? n.active.scope "b" = none := by
  intro source
  have hcall : (((Machine.load (Globals.compile .empty source).code 0 Heap.withGlobalScope).after {}
      17).any fun m => (m.pendingCall? {}).any fun call =>
        call.1.parameters == ["b"] && call.2 == ["a"]) = true := by
    decide +kernel
  obtain ⟨m, hafter, hpending⟩ := (Option.any_eq_true _ _).mp hcall
  obtain ⟨⟨closure, recorded⟩, hpending, hnames⟩ := (Option.any_eq_true _ _).mp hpending
  obtain ⟨hparameters, hrecorded⟩ : closure.parameters = ["b"] ∧ recorded = ["a"] := by
    simpa using hnames
  obtain ⟨n, callee, ref, hinvokes, hcallee, hclosure, hstarts⟩ := Machine.exists_invokes hpending
  refine ⟨List.isEmpty_iff.mp (by decide +kernel), m, n, callee, recorded, ref, closure,
    Machine.reaches_after hafter, hinvokes, hcallee, hclosure, hparameters, hstarts.unbound "b" ?_⟩
  simp [hrecorded]

end StackScript
