import StackScript.Proofs.Code.Parts
import StackScript.Proofs.Machine.Frames
import StackScript.Proofs.Machine.Provenance
import StackScript.Proofs.Machine.Safe

set_option autoImplicit false

/-!
# All that can come to run

The code that runs is the code a run was started with, code inside it, the arguments of calls in it,
and the bodies of functions. So is it with places, with the scopes a run gets at and with the
functions in its values: each is there from the start or comes with the code. A `Regime` says what is
known of them, closed under these ways, and every step keeps to it as long as the functions it starts
are ones that the regime answers for.
-/
namespace StackScript

/-- The active code is the arguments of a call. -/
def InArguments : List Suspended → Prop
  | ⟨_, .arguments _ _ _ _⟩ :: _ => True
  | _ => False

/-- What holds of code that runs, and comes with it to the code it holds and to the arguments of its
calls. -/
structure Heritage where
  /-- Code that runs. -/
  part : Code → Prop
  /-- Code that runs and is not the arguments of a call. -/
  whole : Code → Prop
  part_of_whole : ∀ {code}, whole code → part code
  inner : ∀ {code instruction operand inner}, part code → instruction ∈ code →
    instruction.operand = some operand → operand.Holds inner → whole inner
  arguments : ∀ {code pointer instruction count names}, part code →
    code[pointer]? = some instruction → instruction.opcode = .call →
    instruction.operand = some (.call count names) → pointer + 1 + count ≤ code.length →
    part ((code.drop (pointer + 1)).take count)

structure Regime extends Heritage where
  /-- The spans of instructions. -/
  place : Span → Prop
  /-- The functions in values. -/
  allows : FunctionRef → Prop
  /-- The scopes that names are looked up in. -/
  reach : Nat → Prop
  /-- The scopes from this number on are made in the run. -/
  firstScope : Nat
  /-- So are the functions from this number on. -/
  first : Nat
  origin : ∀ {code instruction}, part code → instruction ∈ code → place instruction.origin
  constant : ∀ {code instruction value}, part code → instruction ∈ code →
    instruction.operand = some (.value value) → value.All allows
  allows_new : ∀ ref, first ≤ ref.id → allows ref
  reach_new : ∀ id, firstScope ≤ id → reach id

namespace Regime

variable (r : Regime)

structure Admits (slot : Slot) : Prop where
  origin : r.place slot.origin
  value : slot.value.All r.allows

structure HeapOk (heap : Heap) : Prop where
  firstScope_le : r.firstScope ≤ heap.scopes.size
  first_le : r.first ≤ heap.closures.size
  enclosing : ∀ id outer, r.reach id → (heap.scope id).enclosing = some outer → r.reach outer
  bindings : ∀ id x value, r.reach id → heap.binding? id x = some value → value.All r.allows
  closures : ∀ ref closure, r.first ≤ ref.id → heap.closure? ref = some closure →
    r.whole closure.body ∧ r.reach closure.scope

structure Runs (a : Activation) (waiting : List Suspended) : Prop where
  part : r.part a.code
  whole : ¬ InArguments waiting → r.whole a.code
  stack : ∀ slot ∈ a.stack, r.Admits slot
  scope : r.reach a.scope

def AdmitsPairs (pairs : List (Value × Value)) : Prop :=
  ∀ pair ∈ pairs, pair.1.All r.allows ∧ pair.2.All r.allows

def AdmitsEntries (entries : List (Code × Code)) : Prop :=
  ∀ entry ∈ entries, r.whole entry.1 ∧ r.whole entry.2

def Awaits : Awaited → Prop
  | .arguments callee _ origin _ => r.Admits callee ∧ r.place origin
  | .result origin _ => r.place origin
  | .key origin built value rest =>
    r.place origin ∧ r.AdmitsPairs built ∧ r.whole value ∧ r.AdmitsEntries rest
  | .value origin built key rest =>
    r.place origin ∧ r.AdmitsPairs built ∧ key.All r.allows ∧ r.AdmitsEntries rest

end Regime

structure Machine.Under (r : Regime) (m : Machine) : Prop where
  heap : r.HeapOk m.heap
  active : r.Runs m.active m.suspended
  waiting : ∀ s below, s :: below <:+ m.suspended → r.Runs s.activation below ∧ r.Awaits s.awaited
  log : ∀ d ∈ m.log.toList, r.place d.span

def Progress.Under (r : Regime) : Progress → Prop
  | .running m => m.Under r
  | .finished outcome => outcome.machine.Under r

/-- The body of the function starts, and the call that waited for its arguments waits for it. -/
def Progress.Starts (progress : Progress) (waiting : List Suspended) (ref : FunctionRef) : Prop :=
  ∃ n caller callee names origin resume below, progress = .running n ∧
    waiting = ⟨caller, .arguments callee names origin resume⟩ :: below ∧
    n.suspended = ⟨caller, .result origin resume⟩ :: below ∧ callee.value = .function ref

variable {r : Regime} {heap : Heap} {m : Machine} {limits : Limits}

namespace Regime

theorem HeapOk.addScope (h : r.HeapOk heap) {outer : Nat} (houter : r.reach outer) :
    r.HeapOk (heap.addScope (some outer)).1 where
  firstScope_le := Nat.le_trans h.firstScope_le (heap.grows_addScope (some outer)).size_le
  first_le := h.first_le
  enclosing id other hid hother := by
    by_cases hnew : id = heap.scopes.size
    · subst hnew
      rw [Heap.scope_addScope_new] at hother
      exact Option.some.inj hother ▸ houter
    · rw [Heap.scope_addScope_of_ne heap _ hnew] at hother
      exact h.enclosing id other hid hother
  bindings id x value hid hvalue := by
    rw [Heap.binding?_addScope] at hvalue
    exact h.bindings id x value hid hvalue
  closures := h.closures

theorem HeapOk.define (h : r.HeapOk heap) (id : Nat) (name : String) {value : Value}
    (hvalue : value.All r.allows) : r.HeapOk (heap.define id name value) where
  firstScope_le := Nat.le_trans h.firstScope_le (heap.grows_define id name value).size_le
  first_le := h.first_le
  enclosing other outer hother houter := by
    rw [Heap.enclosing_define] at houter
    exact h.enclosing other outer hother houter
  bindings other x v hother hv := by
    obtain rfl | hold := Heap.binding?_define_cases hv
    · exact hvalue
    · exact h.bindings other x v hother hold
  closures := h.closures

theorem HeapOk.defineAll (h : r.HeapOk heap) (id : Nat) (names : List String) {values : List Value}
    (hvalues : ∀ value ∈ values, value.All r.allows) : r.HeapOk (heap.defineAll id names values) := by
  induction names generalizing heap values with
  | nil => exact h
  | cons name names ih =>
    cases values with
    | nil => exact ih (h.define id name .none) (by simp)
    | cons value values =>
      exact ih (h.define id name (hvalues value List.mem_cons_self)) fun v hv =>
        hvalues v (List.mem_cons_of_mem _ hv)

theorem HeapOk.addClosure (h : r.HeapOk heap) (closure : Closure) (hbody : r.whole closure.body)
    (hscope : r.reach closure.scope) : r.HeapOk (heap.addClosure closure).1 where
  firstScope_le := h.firstScope_le
  first_le := Nat.le_trans h.first_le (heap.grows_addClosure closure).closures_le
  enclosing := h.enclosing
  bindings := h.bindings
  closures ref other href hother := by
    by_cases hnew : ref.id = heap.closures.size
    · obtain rfl : closure = other := by
        simpa [Heap.closure?, Heap.addClosure, Array.getElem?_push, hnew] using hother
      exact ⟨hbody, hscope⟩
    · refine h.closures ref other href ?_
      simpa [Heap.closure?, Heap.addClosure, Array.getElem?_push, hnew] using hother

theorem HeapOk.reach_owner (h : r.HeapOk heap) {name : String} {count id owner : Nat}
    (hid : r.reach id) (howner : heap.ownerWithin name count id = some owner) : r.reach owner := by
  induction count generalizing id with
  | zero => simp [Heap.ownerWithin] at howner
  | succ count ih =>
    simp only [Heap.ownerWithin] at howner
    split at howner
    · exact Option.some.inj howner ▸ hid
    · cases houter : (heap.scope id).enclosing with
      | none => simp [houter] at howner
      | some outer =>
        rw [houter] at howner
        exact ih (h.enclosing id outer hid houter) howner

theorem HeapOk.lookup (h : r.HeapOk heap) {id : Nat} (hid : r.reach id) (name : String) :
    (heap.lookup id name).All r.allows := by
  unfold Heap.lookup
  split
  · rename_i owner howner
    cases hbinding : (heap.scope owner).bindings.get? name with
    | none => exact .none
    | some value => exact h.bindings owner name value (h.reach_owner hid howner) hbinding
  · exact .none

end Regime

namespace Machine

theorem Under.report (h : m.Under r) (fault : RunFault) {span : Span} (hspan : r.place span) :
    (m.report fault span).Under r where
  heap := h.heap
  active := h.active
  waiting := h.waiting
  log d hd := by
    rw [Machine.report, toList_push] at hd
    obtain hold | hnew := List.mem_append.mp hd
    · exact h.log d hold
    · obtain rfl := List.mem_singleton.mp hnew
      exact hspan

theorem Under.setStack (h : m.Under r) {stack : List Slot} (hstack : ∀ slot ∈ stack, r.Admits slot) :
    (m.setStack stack).Under r :=
  ⟨h.heap, ⟨h.active.part, h.active.whole, hstack, h.active.scope⟩, h.waiting, h.log⟩

theorem Under.push (h : m.Under r) {value : Value} {origin : Span} (hvalue : value.All r.allows)
    (horigin : r.place origin) : (m.push value origin).Under r := by
  refine h.setStack fun slot hslot => ?_
  obtain rfl | hold := List.mem_cons.mp hslot
  · exact ⟨horigin, hvalue⟩
  · exact h.active.stack slot hold

theorem Under.goto (h : m.Under r) (pointer : Nat) : (m.goto pointer).Under r :=
  ⟨h.heap, ⟨h.active.part, h.active.whole, h.active.stack, h.active.scope⟩, h.waiting, h.log⟩

theorem Under.withHeap (h : m.Under r) {heap : Heap} (hheap : r.HeapOk heap) :
    ({ m with heap } : Machine).Under r :=
  ⟨hheap, h.active, h.waiting, h.log⟩

theorem Under.withSteps (h : m.Under r) (steps : Nat) : ({ m with steps } : Machine).Under r :=
  ⟨h.heap, h.active, h.waiting, h.log⟩

theorem Under.enter (h : m.Under r) {activation : Activation} {awaited : Awaited}
    (hruns : r.Runs activation (⟨m.active, awaited⟩ :: m.suspended)) (hawaits : r.Awaits awaited) :
    (m.enter activation awaited).Under r where
  heap := h.heap
  active := hruns
  waiting s below hsuffix := by
    obtain heq | hold := List.suffix_cons_iff.mp hsuffix
    · obtain ⟨rfl, rfl⟩ := List.cons.inj heq
      exact ⟨h.active, hawaits⟩
    · exact h.waiting s below hold
  log := h.log

theorem runs_start {code : Code} (hcode : r.whole code) {scope : Nat} (hscope : r.reach scope)
    (depth : Nat) (waiting : List Suspended) : r.Runs (.start code scope depth) waiting :=
  ⟨r.part_of_whole hcode, fun _ => hcode, by simp [Activation.start], hscope⟩

theorem Under.enterEntry (h : m.Under r) {code : Code} (hcode : r.whole code) {awaited : Awaited}
    (hawaits : r.Awaits awaited) : (m.enterEntry code awaited).Under r := by
  have hheap := h.withHeap (h.heap.addScope h.active.scope)
  exact hheap.enter (runs_start hcode (r.reach_new _ h.heap.firstScope_le) _ _) hawaits

theorem Under.buildObject (h : m.Under r) {origin : Span} (horigin : r.place origin)
    {built : List (Value × Value)} (hbuilt : r.AdmitsPairs built) {entries : List (Code × Code)}
    (hentries : r.AdmitsEntries entries) : (m.buildObject origin built entries).Under r := by
  cases entries with
  | nil =>
    have hobject : (Value.object (Entries.ofPairs built.reverse)).All r.allows :=
      .ofPairs (fun pair hpair => (hbuilt pair (List.mem_reverse.mp hpair)).1)
        fun pair hpair => (hbuilt pair (List.mem_reverse.mp hpair)).2
    exact (h.push hobject horigin).goto _
  | cons entry rest =>
    obtain ⟨hkey, hvalue⟩ := hentries entry List.mem_cons_self
    exact h.enterEntry hkey
      ⟨horigin, hbuilt, hvalue, fun e he => hentries e (List.mem_cons_of_mem _ he)⟩

theorem Under.invoke (h : m.Under r) {callee : Slot} (hcallee : r.Admits callee)
    {arguments : List Value} (harguments : ∀ value ∈ arguments, value.All r.allows)
    {origin : Span} (horigin : r.place origin) (names : List String) (resume : Nat)
    (hstarts : ∀ ref closure, callee.value = .function ref → m.heap.closure? ref = some closure →
      m.active.depth < limits.maxCallDepth → r.first ≤ ref.id) :
    (m.invoke limits callee names arguments origin resume).Under r := by
  unfold Machine.invoke
  split
  · rename_i ref href
    split
    · exact ((h.report _ horigin).push .none horigin).goto _
    · rename_i hshallow
      split
      · exact h.goto _
      · rename_i closure hclosure
        have hfirst := hstarts ref closure href hclosure (Nat.not_lt.mp hshallow)
        obtain ⟨hbody, hscope⟩ := h.heap.closures ref closure hfirst hclosure
        have hheap := (h.heap.addScope hscope).defineAll m.heap.scopes.size
          (if names.isEmpty then closure.parameters else names) harguments
        exact (h.withHeap hheap).enter
          (runs_start hbody (r.reach_new _ h.heap.firstScope_le) _ _) horigin
  · exact (h.report _ hcallee.origin).goto _

theorem Under.finish (h : m.Under r) {given : Option Value}
    (hgiven : ∀ value, given = some value → value.All r.allows)
    (hstarts : ∀ ref, (m.finish limits given).Starts m.suspended ref → r.first ≤ ref.id) :
    (m.finish limits given).Under r := by
  have hvalue : (given.getD m.active.top).All r.allows := by
    cases given with
    | some value => exact hgiven value rfl
    | none =>
      unfold Option.getD Activation.top
      dsimp only
      split
      · rename_i slot rest hstack
        exact (h.active.stack slot (hstack ▸ List.mem_cons_self)).value
      · exact .none
  unfold Machine.finish at hstarts ⊢
  split
  · exact h
  · rename_i caller below hsuspended
    obtain ⟨hruns, hawaits⟩ := h.waiting caller below (hsuspended ▸ List.suffix_refl _)
    have hresumed : ({ m with active := caller.activation, suspended := below } : Machine).Under r :=
      ⟨h.heap, hruns, fun s rest hsuffix =>
        h.waiting s rest (hsuspended ▸ hsuffix.trans (List.suffix_cons _ _)), h.log⟩
    obtain ⟨activation, awaited⟩ := caller
    simp only [hsuspended] at hstarts
    cases awaited with
    | arguments callee names origin resume =>
      obtain ⟨hcallee, horigin⟩ := hawaits
      refine hresumed.invoke hcallee (fun value hmem => ?_) horigin names resume ?_
      · obtain ⟨slot, hslot, rfl⟩ := List.mem_map.mp hmem
        exact (h.active.stack slot (List.mem_reverse.mp hslot)).value
      · intro ref closure href hclosure hdepth
        refine hstarts ref ?_
        dsimp only
        rw [invoke_eq_startBody names _ origin resume href hclosure hdepth]
        exact ⟨_, activation, callee, names, origin, resume, below, rfl, rfl, rfl, href⟩
    | result origin resume => exact (hresumed.push hvalue hawaits).goto _
    | key origin built valueCode rest =>
      obtain ⟨horigin, hbuilt, hcode, hrest⟩ := hawaits
      exact hresumed.enterEntry hcode ⟨horigin, hbuilt, hvalue, hrest⟩
    | value origin built key rest =>
      obtain ⟨horigin, hbuilt, hkey, hrest⟩ := hawaits
      refine hresumed.buildObject horigin (fun pair hpair => ?_) hrest
      obtain rfl | hold := List.mem_cons.mp hpair
      · exact ⟨hkey, hvalue⟩
      · exact hbuilt pair hold

section Instruction

variable {instruction : Instruction} (h : m.Under r) (hmem : instruction ∈ m.active.code)

include h hmem

theorem Under.place_of_marks {origin : Span} (hmarks : m.Marks instruction origin) :
    r.place origin := by
  obtain rfl | ⟨slot, hslot, rfl⟩ := hmarks
  · exact r.origin h.active.part hmem
  · exact (h.active.stack slot hslot).origin

theorem Under.all_of_knows {value : Value} (hknows : m.Knows instruction value) :
    value.All r.allows :=
  hknows r.allows (fun slot hslot => (h.active.stack slot hslot).value)
    (fun _ hoperand => r.constant h.active.part hmem hoperand)
    (fun name => h.heap.lookup h.active.scope name)

theorem Under.admits_of_supplies {stack : List Slot}
    (hslots : ∀ slot ∈ stack, m.Supplies instruction slot) : ∀ slot ∈ stack, r.Admits slot :=
  fun slot hslot =>
    ⟨h.place_of_marks hmem (hslots slot hslot).origin, h.all_of_knows hmem (hslots slot hslot).value⟩

theorem Under.withLog {log : DiagnosticLog} (hlogs : m.Logs instruction log) :
    ({ m with log } : Machine).Under r := by
  cases hlogs with
  | nothing => exact h
  | fault _ marks => exact h.report _ (h.place_of_marks hmem marks)

end Instruction

theorem Under.of_derives (h : m.Under r) {instruction : Instruction}
    (hcode : m.active.code[m.active.pointer]? = some instruction) {progress : Progress}
    (hderives : Derives limits m instruction progress)
    (hstarts : ∀ ref, progress.Starts m.suspended ref → r.first ≤ ref.id) : progress.Under r := by
  have hmem : instruction ∈ m.active.code := List.mem_of_getElem? hcode
  have hplace : r.place instruction.origin := r.origin h.active.part hmem
  cases hderives with
  | goes _ slots logs =>
    exact ((h.withLog hmem logs).setStack (h.admits_of_supplies hmem slots)).goto _
  | stores name slots known =>
    have hheap := h.heap.define ((m.heap.owner? m.active.scope name).getD m.active.scope) name
      (h.all_of_knows hmem known)
    exact ((h.withHeap hheap).setStack (h.admits_of_supplies hmem slots)).goto _
  | opens slots =>
    have hnew := (h.setStack (h.admits_of_supplies hmem slots)).withHeap
      (h.heap.addScope h.active.scope)
    exact ⟨hnew.heap, ⟨hnew.active.part, hnew.active.whole, hnew.active.stack,
      r.reach_new _ h.heap.firstScope_le⟩, hnew.waiting, hnew.log⟩
  | closes slots enclosing _ =>
    have hscope := h.heap.enclosing _ _ h.active.scope enclosing
    exact ⟨h.heap, ⟨h.active.part, h.active.whole, h.admits_of_supplies hmem slots, hscope⟩,
      h.waiting, h.log⟩
  | @makes stack name parameters body slots operand =>
    have hbody : r.whole body := r.inner h.active.part hmem operand (.body name parameters body)
    have hheap := (h.setStack (h.admits_of_supplies hmem slots)).withHeap
      (h.heap.addClosure ⟨name, parameters, body, m.active.scope⟩ hbody h.active.scope)
    exact (hheap.push (.function (r.allows_new _ h.heap.first_le)) hplace).goto _
  | builds slots operand =>
    refine (h.setStack (h.admits_of_supplies hmem slots)).buildObject hplace
      (by simp [Regime.AdmitsPairs]) ?_
    exact fun entry hentry => ⟨r.inner h.active.part hmem operand (.key hentry),
      r.inner h.active.part hmem operand (.value hentry)⟩
  | calls slots opcode operand inside =>
    have hadmits := h.admits_of_supplies hmem slots
    have hstack := h.setStack fun slot hslot => hadmits slot (List.mem_cons_of_mem _ hslot)
    refine hstack.enter ⟨?_, fun hnot => absurd trivial hnot, by simp [Activation.start],
      h.active.scope⟩ ⟨hadmits _ List.mem_cons_self, hplace⟩
    exact r.arguments h.active.part hcode opcode operand inside
  | ends slots known logs =>
    exact ((h.withLog hmem logs).setStack (h.admits_of_supplies hmem slots)).finish
      (fun value hgiven => h.all_of_knows hmem (known value hgiven)) hstarts

theorem Under.step (h : m.Under r)
    (hstarts : ∀ ref, (m.step limits).Starts m.suspended ref → r.first ≤ ref.id) :
    (m.step limits).Under r := by
  have hadvances := advances_step limits m
  generalize m.step limits = progress at hadvances hstarts
  cases hadvances with
  | @executes instruction steps progress code derives =>
    exact (h.withSteps steps).of_derives code derives hstarts
  | stops => exact (h.withSteps _).finish (by simp) hstarts
  | overruns limit code =>
    have hplace := r.origin h.active.part (List.mem_of_getElem? code)
    exact ((h.withSteps _).report _ hplace).finish (by simp) hstarts

theorem Reaches.under {n : Machine} (hreach : Reaches limits m n) (h : m.Under r)
    (hstarts : ∀ k, Reaches limits m k → ∀ ref, (k.step limits).Starts k.suspended ref →
      r.first ≤ ref.id) : n.Under r := by
  induction hreach with
  | refl _ => exact h
  | @next m next n hs _ ih =>
    have hstep := h.step (hstarts m (.refl m))
    rw [hs] at hstep
    exact ih hstep fun k hk => hstarts k (.next hs hk)

theorem Under.of_run (h : m.Under r) {fuel : Nat} {outcome : Outcome}
    (hrun : m.run limits fuel = some outcome)
    (hstarts : ∀ k, Reaches limits m k → ∀ ref, (k.step limits).Starts k.suspended ref →
      r.first ≤ ref.id) : outcome.machine.Under r := by
  obtain ⟨n, hreach, hend⟩ := reaches_of_run_eq_some hrun
  have hlast := (hreach.under h hstarts).step (hstarts n hreach)
  rwa [hend] at hlast

theorem Reaches.under_of_allows {n : Machine} (hreach : Reaches limits m n) (h : m.Under r)
    (hallows : ∀ ref, r.allows ref → r.first ≤ ref.id) : n.Under r := by
  refine hreach.invariant (Machine.Under r) (fun a b ha hs => ?_) h
  have hstarts : ∀ ref, (a.step limits).Starts a.suspended ref → r.first ≤ ref.id := by
    rintro ref ⟨n, caller, callee, names, origin, resume, below, _, hwaiting, _, hcallee⟩
    obtain ⟨_, hadmits, _⟩ := ha.waiting ⟨caller, .arguments callee names origin resume⟩ below
      (hwaiting ▸ List.suffix_refl _)
    have hvalue := hadmits.value
    rw [hcallee] at hvalue
    cases hvalue with
    | function href => exact hallows ref href
  have hstep := ha.step hstarts
  rwa [hs] at hstep

end Machine

end StackScript
