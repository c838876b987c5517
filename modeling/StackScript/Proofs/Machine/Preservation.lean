import StackScript.Proofs.Machine.Frames
import StackScript.Proofs.Machine.Safe

set_option autoImplicit false

/-!
# Steps keep machines safe

Main statement: `Machine.safe_step`. A step of a safe machine leaves a safe machine, whatever the
limits, and the machine with which a run ends is still in order. `Reaches.safe` carries that through
whole runs.
-/
namespace StackScript

open Code (Sound)

variable {t : Setting} {heap : Heap} {m : Machine} {limits : Limits} {shape : Shape}

namespace Setting

theorem HeapOk.inReach_new (h : t.HeapOk heap) : t.InReach heap.scopes.size := .inr h.size_le

theorem HeapOk.addScope (h : t.HeapOk heap) {outer : Nat} (houter : t.InReach outer) :
    t.HeapOk (heap.addScope (some outer)).1 where
  size_le := Nat.le_trans h.size_le (heap.grows_addScope (some outer)).size_le
  first_le := h.first_le
  enclosing id other hid hother := by
    by_cases hnew : id = heap.scopes.size
    · subst hnew
      rw [Heap.scope_addScope_new] at hother
      exact Option.some.inj hother ▸ houter
    · rw [Heap.scope_addScope_of_ne heap _ hnew] at hother
      exact h.enclosing id other hid hother
  values id x value hid hvalue := by
    rw [Heap.binding?_addScope] at hvalue
    exact (h.values id x value hid hvalue).mono (heap.grows_addScope (some outer))
  closures := h.closures

theorem HeapOk.define (h : t.HeapOk heap) {id : Nat} {name : String} {value : Value}
    (hvalue : t.ValueOk heap value) : t.HeapOk (heap.define id name value) where
  size_le := Nat.le_trans h.size_le (heap.grows_define id name value).size_le
  first_le := h.first_le
  enclosing other outer hother houter := by
    rw [Heap.enclosing_define] at houter
    exact h.enclosing other outer hother houter
  values other x v hother hv := by
    obtain rfl | hold := Heap.binding?_define_cases hv
    · exact hvalue.mono (heap.grows_define id name v)
    · exact (h.values other x v hother hold).mono (heap.grows_define id name value)
  closures := h.closures

theorem HeapOk.defineAll (h : t.HeapOk heap) {id : Nat} {names : List String} {values : List Value}
    (hvalues : ∀ value ∈ values, t.ValueOk heap value) :
    t.HeapOk (heap.defineAll id names values) := by
  induction names generalizing heap values with
  | nil => exact h
  | cons name names ih =>
    cases values with
    | nil => exact ih (h.define .none) (by simp)
    | cons value values =>
      refine ih (h.define (hvalues value List.mem_cons_self)) fun v hv => ?_
      exact (hvalues v (List.mem_cons_of_mem _ hv)).mono (heap.grows_define id name value)

theorem HeapOk.addClosure (h : t.HeapOk heap) {closure : Closure}
    (hbody : Sound t.toDiscipline closure.body 0 0 []) (hprocs : t.procs closure.parameters)
    (hscope : t.InReach closure.scope) : t.HeapOk (heap.addClosure closure).1 where
  size_le := h.size_le
  first_le := Nat.le_trans h.first_le (heap.grows_addClosure closure).closures_le
  enclosing := h.enclosing
  values id x value hid hvalue :=
    (h.values id x value hid hvalue).mono (heap.grows_addClosure closure)
  closures ref other href hother := by
    by_cases hnew : ref.id = heap.closures.size
    · obtain rfl : closure = other := by
        simpa [Heap.closure?, Heap.addClosure, Array.getElem?_push, hnew] using hother
      exact ⟨hbody, hprocs, hscope⟩
    · refine h.closures ref other href ?_
      simpa [Heap.closure?, Heap.addClosure, Array.getElem?_push, hnew] using hother

theorem HeapOk.inReach_owner (h : t.HeapOk heap) {name : String} {count id owner : Nat}
    (hid : t.InReach id) (howner : heap.ownerWithin name count id = some owner) :
    t.InReach owner := by
  induction count generalizing id with
  | zero => simp [Heap.ownerWithin] at howner
  | succ count ih =>
    simp only [Heap.ownerWithin] at howner
    split at howner
    · exact Option.some.inj howner ▸ hid
    · cases houter : (heap.scope id).enclosing with
      | none => simp [houter] at howner
      | some outer =>
        rw [houter] at howner
        exact ih (h.enclosing id outer hid houter) howner

theorem HeapOk.lookup (h : t.HeapOk heap) {id : Nat} (hid : t.InReach id) (name : String) :
    t.ValueOk heap (heap.lookup id name) := by
  unfold Heap.lookup
  split
  · rename_i owner howner
    have howner := h.inReach_owner hid howner
    cases hbinding : (heap.scope owner).bindings.get? name with
    | none => exact .none
    | some value => exact h.values owner name value howner hbinding
  · exact .none

theorem Suits.mono {later : Heap} {x : String} {value : Value} (h : t.Suits heap x value)
    (hgrows : heap.Grows later) : t.Suits later x value :=
  fun names hfixed => (h names hfixed).mono hgrows

theorem suits_none (heap : Heap) (x : String) : t.Suits heap x .none :=
  fun _ _ _ href => nomatch href

theorem Framed.addScope (h : t.Framed heap) (outer : Option Nat) :
    t.Framed (heap.addScope outer).1 where
  unwritten x hx id := by rw [Heap.binding?_addScope, h.unwritten x hx id]
  suited id x value hvalue := by
    rw [Heap.binding?_addScope] at hvalue
    exact (h.suited id x value hvalue).mono (heap.grows_addScope outer)

theorem Framed.define (h : t.Framed heap) {id : Nat} {name : String} {value : Value}
    (hname : t.Writes name) (hvalue : t.Suits heap name value) :
    t.Framed (heap.define id name value) where
  unwritten x hx other := by
    have hne : x ≠ name := fun heq => hx (heq ▸ hname)
    rw [Heap.binding?_define_of_ne heap id other value hne, h.unwritten x hx other]
  suited other x v hv := by
    refine Suits.mono ?_ (heap.grows_define id name value)
    by_cases hx : x = name
    · subst hx
      obtain rfl | hold := Heap.binding?_define_cases hv
      · exact hvalue
      · exact h.suited other x v hold
    · rw [Heap.binding?_define_of_ne heap id other value hx] at hv
      exact h.suited other x v hv

theorem Framed.defineAll (h : t.Framed heap) {id : Nat} {names : List String} {values : List Value}
    (hnames : ∀ name ∈ names, t.Writes name)
    (hfree : ∀ name ∈ names, ∀ parameters, ¬ t.fixed name parameters) :
    t.Framed (heap.defineAll id names values) where
  unwritten x hx other := by
    -- Parameters can have any values, so nothing is promised of them.
    have hnot : x ∉ names := fun hmem => hx (hnames x hmem)
    rw [Heap.binding?_defineAll_of_not_mem heap id other values hnot, h.unwritten x hx other]
  suited other x v hv := by
    by_cases hx : x ∈ names
    · exact fun parameters hfixed => absurd hfixed (hfree x hx parameters)
    · rw [Heap.binding?_defineAll_of_not_mem heap id other values hx] at hv
      exact (h.suited other x v hv).mono (Heap.grows_defineAll heap id names values)

theorem Framed.addClosure (h : t.Framed heap) (closure : Closure) :
    t.Framed (heap.addClosure closure).1 where
  unwritten := h.unwritten
  suited id x value hvalue :=
    (h.suited id x value hvalue).mono (heap.grows_addClosure closure)

theorem Framed.lookup (h : t.Framed heap) (id : Nat) (x : String) :
    t.Suits heap x (heap.lookup id x) := by
  unfold Heap.lookup
  split
  · rename_i owner _
    cases hbinding : (heap.scope owner).bindings.get? x with
    | none => exact suits_none heap x
    | some value => exact h.suited owner x value hbinding
  · exact suits_none heap x

theorem failed_of_not_live {log : DiagnosticLog} (h : ¬ t.Live log) (hexact : t.exact) :
    Failed log.toList :=
  Classical.byContradiction fun hfailed => h ⟨hexact, hfailed⟩

/-- Codes that are reported of sound code as well. -/
def isOrdinary : DiagnosticCode → Bool
  | .invalidJumpTarget | .malformedInstruction | .unbalancedScope | .stackCorruption => false
  | _ => true

theorem allows_of_isOrdinary {before : List Diagnostic} {d : Diagnostic}
    (h : isOrdinary d.code = true) : t.Allows before d := by
  refine ⟨?_, ?_, ?_, fun hcode => ?_⟩
  · intro hcode
    simp [hcode, isOrdinary] at h
  · intro hcode
    simp [hcode, isOrdinary] at h
  · intro hcode
    simp [hcode, isOrdinary] at h
  · simp [hcode, isOrdinary] at h

theorem allows_stackCorruption {log : DiagnosticLog} {d : Diagnostic}
    (hcode : d.code = .stackCorruption) (hdead : ¬ t.Live log) : t.Allows log.toList d :=
  ⟨by simp [hcode], by simp [hcode], by simp [hcode], fun _ => failed_of_not_live hdead⟩

end Setting

namespace Machine

theorem Ambient.report (h : m.Ambient t) {fault : RunFault} {span : Span}
    (hallows : t.Allows m.log.toList (fault.diagnostic span)) :
    (m.report fault span).Ambient t where
  heap := h.heap
  framed hlive := h.framed hlive.of_push
  log := h.log.push hallows
  suspended s hs := (h.suspended s hs).mono (Heap.Grows.refl _) Setting.Live.of_push
  active := h.active

theorem Ambient.setStack (h : m.Ambient t) {stack : List Slot}
    (hstack : ∀ slot ∈ stack, t.ValueOk m.heap slot.value) : (m.setStack stack).Ambient t where
  heap := h.heap
  framed := h.framed
  log := h.log
  suspended := h.suspended
  active := ⟨hstack, h.active.scope, h.active.climbs⟩

theorem Ambient.push (h : m.Ambient t) {value : Value} (hvalue : t.ValueOk m.heap value)
    (origin : Span) : (m.push value origin).Ambient t := by
  refine h.setStack fun slot hslot => ?_
  obtain rfl | hrest := List.mem_cons.mp hslot
  · exact hvalue
  · exact h.active.stack slot hrest

theorem Ambient.withHeap (h : m.Ambient t) {heap : Heap} (hheap : t.HeapOk heap)
    (hgrows : m.heap.Grows heap) (hframed : t.Live m.log → t.Framed heap) :
    ({ m with heap } : Machine).Ambient t where
  heap := hheap
  framed := hframed
  log := h.log
  suspended s hs := (h.suspended s hs).mono hgrows id
  active := h.active.mono hgrows

theorem Ambient.goto (h : m.Ambient t) (pointer : Nat) : (m.goto pointer).Ambient t :=
  ⟨h.heap, h.framed, h.log, h.suspended, ⟨h.active.stack, h.active.scope, h.active.climbs⟩⟩

theorem Ambient.safe_goto (h : m.Ambient t) {pointer : Nat}
    (hstands : StandsAt t m.heap (t.Live m.log) m.active pointer) : (m.goto pointer).Safe t :=
  ⟨h.goto pointer, hstands⟩

theorem Ambient.safe_pushKnown (h : m.Ambient t) {pointer : Nat} {value : Value}
    {entry : StackEntry} (hvalue : t.ValueOk m.heap value) (origin : Span)
    (hsound : Sound t.toDiscipline m.active.code pointer m.active.scopeDepth (entry :: shape))
    (hfits : t.Live m.log → t.Fits m.heap value entry)
    (hmatches : t.Live m.log → Matches t m.heap m.active.stack shape) :
    ((m.push value origin).goto pointer).Safe t :=
  (h.push hvalue origin).safe_goto
    ⟨entry :: shape, hsound, fun hlive => .cons (hfits hlive) (hmatches hlive)⟩

theorem Ambient.safe_push (h : m.Ambient t) {pointer : Nat} {value : Value}
    (hvalue : t.ValueOk m.heap value) (origin : Span)
    (hresumes : ResumesAt t m.heap (t.Live m.log) m.active pointer) :
    ((m.push value origin).goto pointer).Safe t := by
  obtain ⟨shape, hsound, hmatches⟩ := hresumes
  exact h.safe_pushKnown hvalue origin hsound (fun _ => trivial) hmatches

/-- Goes on after a report without a value. That no value is there matters only as long as nothing
has gone wrong. -/
theorem Ambient.safe_report (h : m.Ambient t) {pointer : Nat} {fault : RunFault} {span : Span}
    (hallows : t.Allows m.log.toList (fault.diagnostic span))
    (hdead : ¬ t.Live (m.log.push (fault.diagnostic span)))
    (hsound : Sound t.toDiscipline m.active.code pointer m.active.scopeDepth shape) :
    ((m.report fault span).goto pointer).Safe t :=
  (h.report hallows).safe_goto ⟨shape, hsound, fun hlive => absurd hlive hdead⟩

theorem Ambient.safe_coercion (h : m.Ambient t) {pointer : Nat} {error : CoercionError}
    {span : Span} (hsound : Sound t.toDiscipline m.active.code pointer m.active.scopeDepth shape) :
    ((m.report (.coercion error) span).goto pointer).Safe t :=
  h.safe_report (Setting.allows_of_isOrdinary rfl) (Setting.not_live_push rfl) hsound

theorem Ambient.safe_notAName (h : m.Ambient t) {pointer : Nat} {found : Value} {span : Span}
    (hdead : ¬ t.Live m.log)
    (hsound : Sound t.toDiscipline m.active.code pointer m.active.scopeDepth shape) :
    ((m.report (.notAName found) span).goto pointer).Safe t :=
  h.safe_report (Setting.allows_stackCorruption rfl hdead) (fun hlive => hdead hlive.of_push) hsound

theorem Ambient.safe_enterEntry (h : m.Ambient t) {code : Code} {awaited : Awaited}
    (hcode : Sound t.toDiscipline code 0 0 [])
    (hawaited : ∀ heap, m.heap.Grows heap → AwaitedOk t heap (t.Live m.log) m.active awaited) :
    (m.enterEntry code awaited).Safe t := by
  have hgrows := m.heap.grows_addScope (some m.active.scope)
  have hinner := h.withHeap (h.heap.addScope h.active.scope) hgrows
    fun hlive => (h.framed hlive).addScope _
  refine ⟨⟨hinner.heap, hinner.framed, hinner.log, ?_, ?_⟩, [], hcode, fun _ => .nil []⟩
  · intro s hs
    obtain rfl | hrest := List.mem_cons.mp hs
    · exact ⟨hinner.active, hawaited _ hgrows⟩
    · exact hinner.suspended s hrest
  · exact ⟨by simp [Activation.start], h.heap.inReach_new, trivial⟩

theorem Ambient.safe_buildObject (h : m.Ambient t) {built : List (Value × Value)}
    {entries : List (Code × Code)} (origin : Span) (hbuilt : PairsOk t m.heap built)
    (hentries : PartsOk t entries)
    (hresumes : ResumesAt t m.heap (t.Live m.log) m.active (m.active.pointer + 1)) :
    (m.buildObject origin built entries).Safe t := by
  cases entries with
  | nil =>
    have hobject : t.ValueOk m.heap (.object (Entries.ofPairs built.reverse)) :=
      Value.All.ofPairs (fun pair hpair => (hbuilt pair (List.mem_reverse.mp hpair)).1)
        fun pair hpair => (hbuilt pair (List.mem_reverse.mp hpair)).2
    exact h.safe_push hobject origin hresumes
  | cons entry rest =>
    have hentry := hentries entry List.mem_cons_self
    have hrest : PartsOk t rest := fun e he => hentries e (List.mem_cons_of_mem _ he)
    exact h.safe_enterEntry hentry.1 fun heap hgrows =>
      ⟨hbuilt.mono hgrows, hentry.2, hrest, hresumes.mono hgrows id⟩

theorem Ambient.safe_startBody (h : m.Ambient t) {closure : Closure} {names : List String}
    {arguments : List Value} {origin : Span} {resume : Nat}
    (hbody : Sound t.toDiscipline closure.body 0 0 []) (hscope : t.InReach closure.scope)
    (hnames : ∀ name ∈ names, t.Writes name)
    (hfree : ∀ name ∈ names, ∀ parameters, ¬ t.fixed name parameters)
    (harguments : ∀ value ∈ arguments, t.ValueOk m.heap value)
    (hresumes : ResumesAt t m.heap (t.Live m.log) m.active resume) :
    (m.startBody closure names arguments origin resume).Safe t := by
  have hadd := m.heap.grows_addScope (some closure.scope)
  have hgrows := hadd.trans (Heap.grows_defineAll _ m.heap.scopes.size names arguments)
  have hheap : t.HeapOk ((m.heap.addScope (some closure.scope)).1.defineAll m.heap.scopes.size names
      arguments) :=
    (h.heap.addScope hscope).defineAll fun value hvalue => (harguments value hvalue).mono hadd
  have hinner := h.withHeap hheap hgrows
    fun hlive => ((h.framed hlive).addScope _).defineAll hnames hfree
  refine ⟨⟨hinner.heap, hinner.framed, hinner.log, ?_, ?_⟩, [], hbody, fun _ => .nil []⟩
  · intro s hs
    obtain rfl | hrest := List.mem_cons.mp hs
    · exact ⟨hinner.active, hresumes.mono hgrows id⟩
    · exact hinner.suspended s hrest
  · exact ⟨by simp [startBody, Activation.start], h.heap.inReach_new, trivial⟩

theorem Ambient.safe_invoke (h : m.Ambient t) {callee : Slot} {names : List String}
    {arguments : List Value} {entry : StackEntry} (origin : Span) {resume : Nat}
    (hcallee : t.ValueOk m.heap callee.value)
    (hcalls : t.calls m.active.code m.active.pointer entry names)
    (harguments : ∀ value ∈ arguments, t.ValueOk m.heap value)
    (hresumes : ResumesAt t m.heap (t.Live m.log) m.active resume) :
    (m.invoke limits callee names arguments origin resume).Safe t := by
  obtain ⟨shape, hsound, -⟩ := id hresumes
  unfold invoke
  split
  · rename_i ref hvalue
    obtain ⟨hfirst, hdangling⟩ : t.RefOk m.heap ref := by
      rw [hvalue] at hcallee
      cases hcallee with
      | function href => exact href
    split
    · have hreport : (m.report (.callTooDeep ref.name limits.maxCallDepth) origin).Ambient t :=
        h.report (Setting.allows_of_isOrdinary rfl)
      exact hreport.safe_push .none origin
        (hresumes.mono (Heap.Grows.refl _) Setting.Live.of_push)
    · split
      · rename_i hnone
        -- No value is pushed here, but functions in reach are on the heap while shapes are promised.
        refine h.safe_goto ⟨.any :: shape, hsound, fun hlive => ?_⟩
        have hlt := hdangling hlive.1
        simp [Heap.closure?, hlt] at hnone
      · rename_i closure hclosure
        obtain ⟨hbody, hprocs, hscope⟩ := h.heap.closures ref closure hfirst hclosure
        refine h.safe_startBody hbody hscope (fun name hname => ?_) (fun name hname _ hfixed => ?_)
          harguments hresumes
        · split at hname
          · exact .inr (.inr ⟨closure.parameters, hprocs, hname⟩)
          · exact .inr (.inl ⟨_, _, entry, names, hcalls, hname⟩)
        · split at hname
          · exact t.not_mem_of_procs hfixed hprocs hname
          · exact t.not_mem_of_calls hfixed hcalls hname
  · exact h.safe_report (Setting.allows_of_isOrdinary rfl) (Setting.not_live_push rfl) hsound

theorem Ambient.valueOk_top (h : m.Ambient t) : t.ValueOk m.heap m.active.top := by
  unfold Activation.top
  split
  · rename_i slot stack hstack
    exact h.active.stack slot (hstack ▸ List.mem_cons_self)
  · exact .none

theorem Ambient.safe_finish (h : m.Ambient t) {given : Option Value}
    (hgiven : ∀ value ∈ given, t.ValueOk m.heap value) : (m.finish limits given).Safe t := by
  have hvalue : t.ValueOk m.heap (given.getD m.active.top) := by
    cases given with
    | none => exact h.valueOk_top
    | some value => exact hgiven value rfl
  unfold finish
  split
  · exact h
  · rename_i caller rest hsuspended
    have hcaller := h.suspended caller (hsuspended ▸ List.mem_cons_self)
    have hrest : ∀ s ∈ rest, SuspendedOk t m.heap (t.Live m.log) s :=
      fun s hs => h.suspended s (hsuspended ▸ List.mem_cons_of_mem _ hs)
    have hresumed :
        ({ m with active := caller.activation, suspended := rest } : Machine).Ambient t :=
      ⟨h.heap, h.framed, h.log, hrest, hcaller.activation⟩
    obtain ⟨a, awaited⟩ := caller
    cases awaited with
    | arguments callee names origin resume =>
      obtain ⟨hcallee, ⟨entry, hcalls, -⟩, hresumes⟩ := hcaller.awaited
      refine hresumed.safe_invoke origin hcallee hcalls (fun value hvalue => ?_) hresumes
      obtain ⟨slot, hslot, rfl⟩ := List.mem_map.mp hvalue
      exact h.active.stack slot (List.mem_reverse.mp hslot)
    | result origin resume => exact hresumed.safe_push hvalue origin hcaller.awaited
    | key origin built value rest =>
      obtain ⟨hbuilt, hcode, hparts, hresumes⟩ := hcaller.awaited
      exact hresumed.safe_enterEntry hcode fun heap hgrows =>
        ⟨hbuilt.mono hgrows, hvalue.mono hgrows, hparts, hresumes.mono hgrows id⟩
    | value origin built key rest =>
      obtain ⟨hbuilt, hkey, hparts, hresumes⟩ := hcaller.awaited
      refine hresumed.safe_buildObject origin (fun pair hpair => ?_) hparts hresumes
      obtain rfl | hold := List.mem_cons.mp hpair
      · exact ⟨hkey, hvalue⟩
      · exact hbuilt pair hold

theorem Ambient.safe_finish_none (h : m.Ambient t) : (m.finish limits none).Safe t :=
  h.safe_finish (by simp)

theorem Ambient.safe_pop (h : m.Ambient t) {entry : StackEntry} (origin : Span)
    {go : Slot → Machine → Progress}
    (hmatches : t.Live m.log → Matches t m.heap m.active.stack (entry :: shape))
    (hgo : ∀ slot stack, t.ValueOk m.heap slot.value →
      (t.Live m.log → t.Fits m.heap slot.value entry) →
      (t.Live m.log → Matches t m.heap stack shape) → (m.setStack stack).Ambient t →
      (go slot (m.setStack stack)).Safe t) :
    (m.pop limits origin go).Safe t := by
  unfold pop
  split
  · rename_i slot stack hstack
    rw [hstack] at hmatches
    refine hgo slot stack (h.active.stack slot (hstack ▸ List.mem_cons_self)) ?_ ?_ ?_
    · intro hlive
      cases hmatches hlive with
      | cons head tail => exact head
    · intro hlive
      cases hmatches hlive with
      | cons head tail => exact tail
    · exact h.setStack fun s hs => h.active.stack s (hstack ▸ List.mem_cons_of_mem _ hs)
  · rename_i hstack
    -- An empty stack has no shape with an entry, so an operation has failed before.
    have hdead : ¬ t.Live m.log := fun hlive => nomatch hstack ▸ hmatches hlive
    exact (h.report (Setting.allows_stackCorruption rfl hdead)).safe_finish_none

theorem Ambient.safe_popTwo (h : m.Ambient t) {first second : StackEntry} (origin : Span)
    {go : Slot → Slot → Machine → Progress}
    (hmatches : t.Live m.log → Matches t m.heap m.active.stack (first :: second :: shape))
    (hgo : ∀ top below stack, t.ValueOk m.heap top.value → t.ValueOk m.heap below.value →
      (t.Live m.log → t.Fits m.heap top.value first ∧ t.Fits m.heap below.value second) →
      (t.Live m.log → Matches t m.heap stack shape) → (m.setStack stack).Ambient t →
      (go top below (m.setStack stack)).Safe t) :
    (m.popTwo limits origin go).Safe t := by
  refine h.safe_pop origin hmatches fun top rest htop htopFits hrest hpopped => ?_
  exact hpopped.safe_pop origin hrest fun below stack hbelow hfits hstack hambient =>
    hgo top below stack htop hbelow (fun hlive => ⟨htopFits hlive, hfits hlive⟩) hstack hambient

theorem Ambient.safe_next (h : m.Ambient t)
    (hsound : Sound t.toDiscipline m.active.code (m.active.pointer + 1) m.active.scopeDepth shape)
    (hmatches : t.Live m.log → Matches t m.heap m.active.stack shape) : m.next.Safe t :=
  h.safe_goto ⟨shape, hsound, hmatches⟩

theorem Ambient.safe_result (h : m.Ambient t) {result : Except CoercionError Value}
    {origin failed : Span}
    (hsound : Sound t.toDiscipline m.active.code (m.active.pointer + 1) m.active.scopeDepth
      (.any :: shape))
    (hmatches : t.Live m.log → Matches t m.heap m.active.stack shape)
    (hresult : ∀ value, result = .ok value → t.ValueOk m.heap value) :
    (match result with
      | .ok value => (m.push value origin).next
      | .error error => (m.report (.coercion error) failed).next).Safe t := by
  cases result with
  | ok value => exact h.safe_push (hresult value rfl) origin ⟨shape, hsound, hmatches⟩
  | error error => exact h.safe_coercion hsound

theorem Ambient.safe_unary (h : m.Ambient t) {operand : StackEntry} {opcode : Opcode}
    {f : Value → Except CoercionError Value} (origin : Span) (hf : opcode.unary? = some f)
    (hnext : Sound t.toDiscipline m.active.code (m.active.pointer + 1) m.active.scopeDepth
      (.any :: shape))
    (hmatches : t.Live m.log → Matches t m.heap m.active.stack (operand :: shape)) :
    (m.unary limits origin f).Safe t := by
  refine h.safe_pop origin hmatches fun slot stack _ _ hstack hpopped => ?_
  exact hpopped.safe_result hnext hstack fun value hvalue => all_unary hf hvalue

theorem Ambient.safe_binary (h : m.Ambient t) {right left : StackEntry} {opcode : Opcode}
    {f : Value → Value → Except CoercionError Value} (origin : Span)
    (hf : opcode.binary? = some f)
    (hnext : Sound t.toDiscipline m.active.code (m.active.pointer + 1) m.active.scopeDepth
      (.any :: shape))
    (hmatches : t.Live m.log → Matches t m.heap m.active.stack (right :: left :: shape)) :
    (m.binary limits origin f).Safe t := by
  refine h.safe_popTwo origin hmatches fun top below stack _ _ _ hstack hpopped => ?_
  exact hpopped.safe_result hnext hstack fun value hvalue => all_binary hf hvalue

theorem Ambient.safe_index (h : m.Ambient t) {key target : StackEntry} (origin : Span)
    (hnext : Sound t.toDiscipline m.active.code (m.active.pointer + 1) m.active.scopeDepth
      (.any :: shape))
    (hmatches : t.Live m.log → Matches t m.heap m.active.stack (key :: target :: shape)) :
    (m.index limits origin).Safe t := by
  refine h.safe_popTwo origin hmatches fun top below stack _ hbelow _ hstack hpopped => ?_
  split
  · rename_i entries hentries
    rw [hentries] at hbelow
    exact hpopped.safe_push (Value.All.get? hbelow _) origin ⟨shape, hnext, hstack⟩
  · exact hpopped.safe_report (Setting.allows_of_isOrdinary rfl) (Setting.not_live_push rfl) hnext

theorem not_live_of_fits {slot : Slot} {name : String}
    (hfits : t.Live m.log → t.Fits m.heap slot.value (.name name))
    (hother : ∀ text, slot.value ≠ .string text) : ¬ t.Live m.log :=
  fun hlive => hother name (hfits hlive)

theorem Ambient.safe_loadName (h : m.Ambient t) {name : String} {loaded : StackEntry}
    (origin : Span) (hknows : loaded = .any ∨ loaded = .bound name)
    (hnext : Sound t.toDiscipline m.active.code (m.active.pointer + 1) m.active.scopeDepth
      (loaded :: shape))
    (hmatches : t.Live m.log → Matches t m.heap m.active.stack (.name name :: shape)) :
    (m.loadName limits origin).Safe t := by
  refine h.safe_pop origin hmatches fun slot stack _ hfits hstack hpopped => ?_
  split
  · rename_i x hx
    refine hpopped.safe_pushKnown (h.heap.lookup h.active.scope x) origin hnext (fun hlive => ?_)
      hstack
    obtain rfl | rfl := hknows
    · trivial
    · obtain rfl : x = name := Value.string.inj (hx.symm.trans (hfits hlive))
      exact (h.framed hlive).lookup m.active.scope x
  · rename_i hother
    exact hpopped.safe_notAName (not_live_of_fits hfits hother) hnext

theorem Ambient.safe_store (h : m.Ambient t) {stored : StackEntry} {name : String} {keep : Bool}
    (origin : Span) (hstores : t.stores name stored)
    (hnext : Sound t.toDiscipline m.active.code (m.active.pointer + 1) m.active.scopeDepth
      (if keep then .any :: shape else shape))
    (hmatches : t.Live m.log → Matches t m.heap m.active.stack (stored :: .name name :: shape)) :
    (m.store limits keep origin).Safe t := by
  refine h.safe_popTwo origin hmatches fun top below stack htop _ hfits hstack hpopped => ?_
  split
  · rename_i x hx
    have hgrows := m.heap.grows_define ((m.heap.owner? m.active.scope x).getD m.active.scope) x
      top.value
    have hassigned := hpopped.withHeap (h.heap.define htop) hgrows fun hlive => by
      -- Nothing has gone wrong, so the name on the stack is the one that the code stores to.
      obtain rfl : x = name := Value.string.inj (hx.symm.trans (hfits hlive).2)
      refine (h.framed hlive).define (.inl ⟨stored, hstores⟩) fun names hfixed => ?_
      obtain rfl := t.made_of_stores hfixed hstores
      exact (hfits hlive).1
    cases keep with
    | true =>
      exact hassigned.safe_push (htop.mono hgrows) origin
        ⟨shape, hnext, fun hlive => (hstack hlive).mono hgrows⟩
    | false => exact hassigned.safe_next hnext fun hlive => (hstack hlive).mono hgrows
  · rename_i hother
    exact hpopped.safe_notAName (not_live_of_fits (fun hlive => (hfits hlive).2) hother) hnext

theorem Ambient.safe_beginScope (h : m.Ambient t)
    (hnext : Sound t.toDiscipline m.active.code (m.active.pointer + 1) (m.active.scopeDepth + 1)
      shape)
    (hmatches : t.Live m.log → Matches t m.heap m.active.stack shape) : m.beginScope.Safe t := by
  have hgrows := m.heap.grows_addScope (some m.active.scope)
  have hinner := h.withHeap (h.heap.addScope h.active.scope) hgrows
    fun hlive => (h.framed hlive).addScope _
  have hclimbs : (m.heap.addScope (some m.active.scope)).1.Climbs (m.active.scopeDepth + 1)
      m.heap.scopes.size :=
    ⟨by simp [Heap.addScope], m.active.scope, by rw [Heap.scope_addScope_new], hinner.active.climbs⟩
  exact ⟨⟨hinner.heap, hinner.framed, hinner.log, hinner.suspended, hinner.active.stack,
    h.heap.inReach_new, hclimbs⟩, shape, hnext, fun hlive => (hmatches hlive).mono hgrows⟩

theorem Ambient.safe_endScope (h : m.Ambient t) {blocks : Nat} (origin : Span)
    (hblocks : m.active.scopeDepth = blocks + 1)
    (hnext : Sound t.toDiscipline m.active.code (m.active.pointer + 1) blocks shape)
    (hmatches : t.Live m.log → Matches t m.heap m.active.stack shape) :
    (m.endScope origin).Safe t := by
  obtain ⟨_, outer, houter, hclimbs⟩ := hblocks ▸ h.active.climbs
  have hscope := h.heap.enclosing m.active.scope outer h.active.scope houter
  simp only [endScope, houter, hblocks]
  exact ⟨⟨h.heap, h.framed, h.log, h.suspended, h.active.stack, hscope, hclimbs⟩, shape, hnext,
    hmatches⟩

theorem Ambient.safe_jumpIf (h : m.Ambient t) {condition : StackEntry} {target : Nat}
    (origin : Span) (wanted : Bool) {opcode : Opcode} (hinside : target < m.active.code.length)
    (htaken : Sound t.toDiscipline m.active.code target m.active.scopeDepth shape)
    (hother : Sound t.toDiscipline m.active.code (m.active.pointer + 1) m.active.scopeDepth shape)
    (hmatches : t.Live m.log → Matches t m.heap m.active.stack (condition :: shape)) :
    (m.jumpIf limits (.jump opcode target origin) wanted).Safe t := by
  simp only [jumpIf, withTarget, Instruction.jump, Instruction.target?, hinside, if_true]
  refine h.safe_pop _ hmatches fun slot stack _ _ hstack hpopped => ?_
  split
  · split
    · exact hpopped.safe_goto ⟨shape, htaken, hstack⟩
    · exact hpopped.safe_next hother hstack
  · exact hpopped.safe_coercion hother

theorem Ambient.safe_call (h : m.Ambient t) {callee : StackEntry} {count : Nat}
    {names : List String} (origin : Span)
    (hinside : m.active.pointer + 1 + count ≤ m.active.code.length)
    (hcalls : t.calls m.active.code m.active.pointer callee names)
    (harguments : Sound t.toDiscipline
      ((m.active.code.drop (m.active.pointer + 1)).take count) 0 0 [])
    (hnext : Sound t.toDiscipline m.active.code (m.active.pointer + 1 + count) m.active.scopeDepth
      (.any :: shape))
    (hmatches : t.Live m.log → Matches t m.heap m.active.stack (callee :: shape)) :
    (m.call limits count names origin).Safe t := by
  refine h.safe_pop origin hmatches fun slot stack hslot hknown hstack hpopped => ?_
  have hfits : (m.setStack stack).active.pointer + 1 + count ≤
      (m.setStack stack).active.code.length :=
    hinside
  simp only [hfits, if_true]
  refine ⟨⟨h.heap, h.framed, h.log, ?_, ?_⟩, [], harguments, fun _ => .nil []⟩
  · intro s hs
    obtain rfl | hrest := List.mem_cons.mp hs
    · exact ⟨hpopped.active, hslot, ⟨callee, hcalls, hknown⟩, shape, hnext, hstack⟩
    · exact h.suspended s hrest
  · exact ⟨by simp [Activation.start], h.active.scope, trivial⟩

theorem Ambient.safe_makeClosure (h : m.Ambient t) (name : String) {parameters : List String}
    {body : Code} (origin : Span) (hprocs : t.procs parameters)
    (hbody : Sound t.toDiscipline body 0 0 [])
    (hnext : Sound t.toDiscipline m.active.code (m.active.pointer + 1) m.active.scopeDepth
      (.made parameters :: shape))
    (hmatches : t.Live m.log → Matches t m.heap m.active.stack shape) :
    (m.makeClosure name parameters body origin).Safe t := by
  let closure : Closure := ⟨name, parameters, body, m.active.scope⟩
  have hheap : t.HeapOk (m.heap.addClosure closure).1 :=
    h.heap.addClosure hbody hprocs h.active.scope
  have hgrows := m.heap.grows_addClosure closure
  have hinner := h.withHeap hheap hgrows fun hlive => (h.framed hlive).addClosure closure
  have hvalue : t.ValueOk (m.heap.addClosure closure).1 (.function (m.heap.addClosure closure).2) :=
    .function ⟨h.heap.first_le, fun _ => by simp [Heap.addClosure]⟩
  have htakes : (Value.function (m.heap.addClosure closure).2).Takes (m.heap.addClosure closure).1
      parameters := by
    intro ref href
    obtain rfl := Value.function.inj href
    exact ⟨closure, by simp [Heap.closure?, Heap.addClosure], rfl⟩
  exact hinner.safe_pushKnown hvalue origin hnext (fun _ => htakes)
    fun hlive => (hmatches hlive).mono hgrows

theorem Ambient.safe_giveBack (h : m.Ambient t) : (m.giveBack limits).Safe t := by
  unfold giveBack
  split
  · rename_i slot stack hstack
    have hslot := h.active.stack slot (hstack ▸ List.mem_cons_self)
    have hpopped : (m.setStack stack).Ambient t :=
      h.setStack fun s hs => h.active.stack s (hstack ▸ List.mem_cons_of_mem _ hs)
    exact hpopped.safe_finish fun value hvalue => Option.some.inj hvalue ▸ hslot
  · exact h.safe_finish fun value hvalue => Option.some.inj hvalue ▸ .none

theorem Ambient.safe_execute (h : m.Ambient t) {instruction : Instruction} {blocks : Nat}
    (hcode : m.active.code[m.active.pointer]? = some instruction)
    (hblocks : m.active.scopeDepth = blocks)
    (hsound : Sound t.toDiscipline m.active.code m.active.pointer blocks shape)
    (hmatches : t.Live m.log → Matches t m.heap m.active.stack shape) :
    (m.execute limits instruction).Safe t := by
  have hinstruction : ∀ {other}, m.active.code[m.active.pointer]? = some other →
      instruction = other := fun hother => Option.some.inj (hcode.symm.trans hother)
  cases hsound with
  | done hlength => simp [List.getElem?_eq_none hlength] at hcode
  | exit hi =>
    obtain rfl := hinstruction hi
    exact h.safe_finish_none
  | giveBack hi =>
    obtain rfl := hinstruction hi
    exact h.safe_giveBack
  | push hi plain next =>
    obtain rfl := hinstruction hi
    subst hblocks
    exact h.safe_push (plain.mono fun _ hfalse => hfalse.elim) _ ⟨shape, next, hmatches⟩
  | pushName hi next =>
    obtain rfl := hinstruction hi
    subst hblocks
    exact (h.push (.string _) _).safe_next next fun hlive => .cons rfl (hmatches hlive)
  | pushNone hi next =>
    obtain rfl := hinstruction hi
    subst hblocks
    exact h.safe_push .none _ ⟨shape, next, hmatches⟩
  | object hi keys values next =>
    obtain rfl := hinstruction hi
    subst hblocks
    exact h.safe_buildObject _ (by simp [PairsOk])
      (fun entry hentry => ⟨keys entry hentry, values entry hentry⟩) ⟨shape, next, hmatches⟩
  | unary hi plain hf next =>
    obtain rfl := hinstruction hi
    subst hblocks
    rw [execute_unary hf]
    exact h.safe_unary _ hf next hmatches
  | binary hi hf next =>
    obtain rfl := hinstruction hi
    subst hblocks
    rw [execute_binary hf]
    exact h.safe_binary _ hf next hmatches
  | index hi next =>
    obtain rfl := hinstruction hi
    subst hblocks
    exact h.safe_index _ next hmatches
  | load hi knows next =>
    obtain rfl := hinstruction hi
    subst hblocks
    exact h.safe_loadName _ knows next hmatches
  | store hi stores next =>
    obtain rfl := hinstruction hi
    subst hblocks
    exact h.safe_store _ stores next hmatches
  | beginScope hi next =>
    obtain rfl := hinstruction hi
    subst hblocks
    exact h.safe_beginScope next hmatches
  | endScope hi next =>
    obtain rfl := hinstruction hi
    exact h.safe_endScope _ hblocks next hmatches
  | @jump _ _ _ target _ origin hi inside next =>
    obtain rfl := hinstruction hi
    subst hblocks
    have hjump : m.execute limits (.jump .jmp target origin) = .running (m.goto target) :=
      if_pos inside
    rw [hjump]
    exact h.safe_goto ⟨shape, next, hmatches⟩
  | branch hi inside taken other =>
    obtain rfl := hinstruction hi
    subst hblocks
    exact h.safe_jumpIf _ _ inside taken other hmatches
  | call hi inside calls arguments next =>
    obtain rfl := hinstruction hi
    subst hblocks
    exact h.safe_call _ inside calls arguments next hmatches
  | proc hi procs inner next =>
    obtain rfl := hinstruction hi
    subst hblocks
    exact h.safe_makeClosure _ _ procs inner next hmatches
  | noop hi keeps next =>
    obtain rfl := hinstruction hi
    subst hblocks
    exact h.safe_next next fun hlive => keeps hlive.1 ▸ hmatches hlive

theorem Ambient.withSteps (h : m.Ambient t) (steps : Nat) :
    ({ m with steps } : Machine).Ambient t :=
  ⟨h.heap, h.framed, h.log, h.suspended, h.active⟩

theorem safe_step (limits : Limits) (h : m.Safe t) : (m.step limits).Safe t := by
  obtain ⟨hambient, shape, hsound, hmatches⟩ := h
  unfold step
  split
  · exact hambient.safe_finish_none
  · rename_i instruction hcode
    obtain ⟨steps, hcharge | hcharge | ⟨limit, hcharge⟩⟩ := charge_cases limits m instruction.origin
    · rw [hcharge]
      exact (hambient.withSteps steps).safe_execute hcode rfl hsound hmatches
    · rw [hcharge]
      exact (hambient.withSteps steps).safe_finish_none
    · rw [hcharge]
      exact ((hambient.withSteps steps).report (Setting.allows_of_isOrdinary rfl)).safe_finish_none

theorem Reaches.safe {n : Machine} (hreach : Reaches limits m n) (h : m.Safe t) : n.Safe t :=
  hreach.invariant (Safe t) (fun a b ha hstep => by
    have hb := safe_step limits ha
    rwa [hstep] at hb) h

theorem Safe.ambient_of_run {fuel : Nat} {outcome : Outcome} (h : m.Safe t)
    (hrun : m.run limits fuel = some outcome) : outcome.machine.Ambient t := by
  obtain ⟨n, hreach, hend⟩ := reaches_of_run_eq_some hrun
  have hambient := safe_step limits (hreach.safe h)
  rw [hend] at hambient
  exact hambient

theorem safe_load {code : Code} {scope : Nat} (steps : Nat)
    (hcode : Sound t.toDiscipline code 0 0 []) (hheap : t.HeapOk t.base)
    (hscope : t.InReach scope)
    (hsuited : ∀ id x value, t.base.binding? id x = some value → t.Suits t.base x value) :
    (load code scope t.base steps).Safe t where
  ambient :=
    { heap := hheap
      framed := fun _ => ⟨fun _ _ _ => rfl, hsuited⟩
      log := by simp [Setting.LogOk, load, DiagnosticLog.toList]
      suspended := by simp [load]
      active := ⟨by simp [load, Activation.start], hscope, trivial⟩ }
  stands := ⟨[], hcode, fun _ => .nil []⟩

end Machine

end StackScript
