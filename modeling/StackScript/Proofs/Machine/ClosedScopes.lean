import StackScript.Proofs.Machine.Calls
import StackScript.Proofs.Machine.Conclusion
import StackScript.Proofs.Machine.Housed

set_option autoImplicit false

/-!
# Scopes are closed

Whatever code runs, balanced or not, an activation stays inside the scope it began in: the count of
its open scopes is the number of links from its scope out to that root. So the scopes in which it can
make a name are its root and those made since, and any older scope keeps its names. Only the values of
these can change.
-/
namespace StackScript

/-- The scope that many enclosing scopes outwards. -/
def Heap.outward? (heap : Heap) : Nat → Nat → Option Nat
  | 0, id => some id
  | count + 1, id => (heap.scope id).enclosing.bind (heap.outward? count)

/-- The scope itself binds the same names in both heaps. -/
def Heap.SameNames (heap later : Heap) (id : Nat) : Prop :=
  ∀ name, (later.binding? id name).isSome = (heap.binding? id name).isSome

/-- That many links lead from a scope out to `root`. The scopes on the way there are not older than
`first`. -/
inductive Heap.Ascends (heap : Heap) (first root : Nat) : Nat → Nat → Prop where
  | root (h : root < heap.scopes.size) : Ascends heap first root 0 root
  | inner {depth id outer : Nat} (new : first ≤ id) (h : id < heap.scopes.size)
      (enclosing : (heap.scope id).enclosing = some outer)
      (rest : Ascends heap first root depth outer) : Ascends heap first root (depth + 1) id

namespace Heap

variable {heap later last : Heap} {first root depth id : Nat}

namespace Ascends

theorem mono (h : heap.Ascends first root depth id) (hgrows : heap.Grows later) :
    later.Ascends first root depth id := by
  induction h with
  | root h => exact .root (Nat.lt_of_lt_of_le h hgrows.size_le)
  | inner new h enclosing _ ih =>
    exact .inner new (Nat.lt_of_lt_of_le h hgrows.size_le) ((hgrows.enclosing _ h).trans enclosing)
      ih

theorem lt_size (h : heap.Ascends first root depth id) : id < heap.scopes.size := by
  cases h with
  | root h => exact h
  | inner _ h _ _ => exact h

theorem outward?_eq (h : heap.Ascends first root depth id) :
    heap.outward? depth id = some root := by
  induction h with
  | root _ => rfl
  | inner _ _ enclosing _ ih => rw [outward?, enclosing, Option.bind_some, ih]

theorem eq_root_or_le (h : heap.Ascends first root depth id) : id = root ∨ first ≤ id := by
  cases h with
  | root _ => exact .inl rfl
  | inner new _ _ _ => exact .inr new

theorem outer {outer : Nat} (h : heap.Ascends first root (depth + 1) id)
    (henclosing : (heap.scope id).enclosing = some outer) :
    heap.Ascends first root depth outer := by
  cases h with
  | inner _ _ enclosing rest =>
    rw [enclosing] at henclosing
    exact Option.some.inj henclosing ▸ rest

end Ascends

theorem Housed.outward?_add_le (h : heap.Housed) {count id other : Nat}
    (hout : heap.outward? count id = some other) : other + count ≤ id := by
  -- Links lead to older scopes only, so each scope of a chain is met once.
  induction count generalizing id with
  | zero => exact Nat.le_of_eq (Option.some.inj hout).symm
  | succ count ih =>
    obtain ⟨outer, houter, hrest⟩ := Option.bind_eq_some_iff.mp hout
    have hlt := h.enclosing id outer houter
    have hle := ih hrest
    omega

theorem outward?_add {count more id other : Nat} (hout : heap.outward? count id = some other) :
    heap.outward? (count + more) id = heap.outward? more other := by
  induction count generalizing id with
  | zero => rw [Nat.zero_add, Option.some.inj hout]
  | succ count ih =>
    obtain ⟨outer, houter, hrest⟩ := Option.bind_eq_some_iff.mp hout
    rw [Nat.succ_add, outward?, houter, Option.bind_some, ih hrest]

theorem Housed.outward?_injective (h : heap.Housed) {count other id target : Nat}
    (hcount : heap.outward? count id = some target)
    (hother : heap.outward? other id = some target) : other = count := by
  obtain hle | hle := Nat.le_total count other
  · obtain ⟨more, rfl⟩ := Nat.exists_eq_add_of_le hle
    rw [outward?_add hcount] at hother
    have hlt := h.outward?_add_le hother
    omega
  · obtain ⟨more, rfl⟩ := Nat.exists_eq_add_of_le hle
    rw [outward?_add hother] at hcount
    have hlt := h.outward?_add_le hcount
    omega

theorem SameNames.refl (heap : Heap) (id : Nat) : heap.SameNames heap id := fun _ => rfl

theorem SameNames.trans (h : heap.SameNames later id) (h' : later.SameNames last id) :
    heap.SameNames last id :=
  fun name => (h' name).trans (h name)

theorem sameNames_of_scope_eq (h : later.scope id = heap.scope id) : heap.SameNames later id :=
  fun name => by rw [binding?, binding?, h]

theorem sameNames_assign {scope : Nat} (hid : id ≠ scope) (name : String) (value : Value) :
    heap.SameNames (heap.assign scope name value) id := by
  -- A binding is changed where there is one, so that only the scope itself can get a new name.
  intro x
  unfold assign
  cases howner : heap.owner? scope name with
  | none => rw [Option.getD_none, binding?, binding?, scope_define_of_ne hid]
  | some owner =>
    have hbound := binding_of_ownerWithin howner
    rw [Option.getD_some]
    by_cases hx : x = name
    · subst hx
      by_cases howned : id = owner
      · subst howned
        rw [binding?_define_self (lt_size_of_binding hbound), hbound, Option.isSome_some]
      · rw [binding?, binding?, scope_define_of_ne howned]
    · rw [binding?_define_of_ne heap owner id value hx]

/-- An activation that began in `root` stands in the scope `id`. Its root is `home` or one of the new
scopes, and it has not left it. -/
structure Anchored (heap : Heap) (first home root depth id : Nat) : Prop where
  ascends : heap.Ascends first root depth id
  root : root = home ∨ first ≤ root

namespace Anchored

variable {home : Nat}

theorem mono (h : heap.Anchored first home root depth id) (hgrows : heap.Grows later) :
    later.Anchored first home root depth id :=
  ⟨h.ascends.mono hgrows, h.root⟩

theorem start (hid : id < heap.scopes.size) (hroot : id = home ∨ first ≤ id) :
    heap.Anchored first home id 0 id :=
  ⟨.root hid, hroot⟩

theorem eq_home_or_le (h : heap.Anchored first home root depth id) : id = home ∨ first ≤ id := by
  obtain rfl | hnew := h.ascends.eq_root_or_le
  · exact h.root
  · exact .inr hnew

end Anchored

end Heap

namespace Machine

variable {limits : Limits} {m n : Machine} {first home : Nat} {base : List Suspended}

/-- The active activation and those that wait, the latest first. -/
def activations (m : Machine) : List Activation :=
  m.active :: m.suspended.map (·.activation)

/-- All activations that do not wait since before are anchored, and the first of them began in
`home`. -/
structure Confined (first home : Nat) (base : List Suspended) (m : Machine) : Prop where
  first_le : first ≤ m.heap.scopes.size
  active : m.heap.Anchored first home m.active.root m.active.scopeDepth m.active.scope
  suspended : ∃ above, m.suspended = above ++ base ∧
    (∀ s ∈ above,
      m.heap.Anchored first home s.activation.root s.activation.scopeDepth s.activation.scope) ∧
    (m.active.root :: above.map (·.activation.root)).getLast? = some home

/-- The active activation is the last of those that do not wait since before, and ends. -/
def Leaves (limits : Limits) (base : List Suspended) (progress : Progress) : Prop :=
  ∃ (ended : Machine) (given : Option Value), ended.suspended = base ∧
    progress = ended.finish limits given

namespace Confined

theorem withHeap (h : m.Confined first home base) {heap : Heap} (hgrows : m.heap.Grows heap) :
    ({ m with heap } : Machine).Confined first home base := by
  obtain ⟨above, habove, hwaiting, houtermost⟩ := h.suspended
  exact ⟨Nat.le_trans h.first_le hgrows.size_le, h.active.mono hgrows, above, habove,
    fun s hs => (hwaiting s hs).mono hgrows, houtermost⟩

theorem enter (h : m.Confined first home base) {activation : Activation} (awaited : Awaited)
    (hanchored : m.heap.Anchored first home activation.root activation.scopeDepth
      activation.scope) :
    (m.enter activation awaited).machine.Confined first home base := by
  obtain ⟨above, habove, hwaiting, houtermost⟩ := h.suspended
  refine ⟨h.first_le, hanchored, ⟨m.active, awaited⟩ :: above, congrArg _ habove, fun s hs => ?_,
    houtermost⟩
  obtain rfl | hold := List.mem_cons.mp hs
  · exact h.active
  · exact hwaiting s hold

theorem enterEntry (h : m.Confined first home base) (code : Code) (awaited : Awaited) :
    (m.enterEntry code awaited).machine.Confined first home base := by
  have hlater := h.withHeap (m.heap.grows_addScope (some m.active.scope))
  refine hlater.enter awaited (.start ?_ (.inr h.first_le))
  show m.heap.scopes.size < (m.heap.addScope (some m.active.scope)).1.scopes.size
  rw [Heap.size_addScope]
  omega

theorem buildObject (h : m.Confined first home base) (origin : Span)
    (built : List (Value × Value)) (entries : List (Code × Code)) :
    (m.buildObject origin built entries).machine.Confined first home base := by
  cases entries with
  | nil => exact ⟨h.first_le, h.active, h.suspended⟩
  | cons entry rest => exact h.enterEntry _ _

theorem invoke (h : m.Confined first home base) (callee : Slot) (names : List String)
    (arguments : List Value) (origin : Span) (resume : Nat) :
    (m.invoke limits callee names arguments origin resume).machine.Confined first home base := by
  unfold Machine.invoke
  split
  · split
    · exact ⟨h.first_le, h.active, h.suspended⟩
    · split
      · exact ⟨h.first_le, h.active, h.suspended⟩
      · rename_i closure _
        have hgrows := m.heap.grows_addScope (some closure.scope)
        have hdefined := Heap.grows_defineAll (m.heap.addScope (some closure.scope)).1
          m.heap.scopes.size (if names.isEmpty then closure.parameters else names) arguments
        refine (h.withHeap (hgrows.trans hdefined)).enter _
          (.start ?_ (.inr h.first_le))
        have hsize := hdefined.size_le
        rw [Heap.size_addScope] at hsize
        exact hsize
  · exact ⟨h.first_le, h.active, h.suspended⟩

theorem finish (h : m.Confined first home base) (given : Option Value) :
    (m.finish limits given).machine.Confined first home base ∨
      Leaves limits base (m.finish limits given) := by
  obtain ⟨above, habove, hwaiting, houtermost⟩ := h.suspended
  cases above with
  | nil => exact .inr ⟨m, given, habove, rfl⟩
  | cons caller rest =>
    left
    have hresumed : ({ m with active := caller.activation, suspended := rest ++ base } :
        Machine).Confined first home base :=
      ⟨h.first_le, hwaiting caller List.mem_cons_self, rest, rfl,
        fun s hs => hwaiting s (List.mem_cons_of_mem _ hs), houtermost⟩
    unfold Machine.finish
    rw [habove]
    dsimp only [List.cons_append]
    cases caller.awaited with
    | arguments callee names origin resume => exact hresumed.invoke _ _ _ _ _
    | result origin resume => exact ⟨hresumed.first_le, hresumed.active, hresumed.suspended⟩
    | key origin built value rest => exact hresumed.enterEntry _ _
    | value origin built key rest => exact hresumed.buildObject _ _ _

theorem of_effect {instruction : Instruction} {progress : Progress}
    (h : m.Confined first home base) (heffect : Effect limits m instruction progress) :
    progress.machine.Confined first home base ∨ Leaves limits base progress := by
  cases heffect with
  | goes _ _ => exact .inl ⟨h.first_le, h.active, h.suspended⟩
  | stores name value =>
    have hlater := h.withHeap (m.heap.grows_define
      ((m.heap.owner? m.active.scope name).getD m.active.scope) name value)
    exact .inl ⟨hlater.first_le, hlater.active, hlater.suspended⟩
  | opens =>
    have hlater := h.withHeap (m.heap.grows_addScope (some m.active.scope))
    have hinner : m.heap.scopes.size < (m.heap.addScope (some m.active.scope)).1.scopes.size := by
      rw [Heap.size_addScope]
      omega
    refine .inl ⟨hlater.first_le, ⟨.inner h.first_le hinner ?_ hlater.active.ascends, h.active.root⟩,
      hlater.suspended⟩
    exact congrArg Scope.enclosing (Heap.scope_addScope_new m.heap (some m.active.scope))
  | closes enclosing scopeDepth_eq =>
    have hascends := h.active.ascends
    rw [scopeDepth_eq] at hascends
    exact .inl ⟨h.first_le, ⟨hascends.outer enclosing, h.active.root⟩, h.suspended⟩
  | makes name parameters body =>
    have hlater := h.withHeap
      (m.heap.grows_addClosure ⟨name, parameters, body, m.active.scope⟩)
    exact .inl ⟨hlater.first_le, hlater.active, hlater.suspended⟩
  | @builds stack entries _ =>
    have hset : (m.setStack stack).Confined first home base :=
      ⟨h.first_le, h.active, h.suspended⟩
    exact .inl (hset.buildObject _ _ _)
  | @calls callee stack count names _ _ =>
    have hset : (m.setStack stack).Confined first home base :=
      ⟨h.first_le, h.active, h.suspended⟩
    exact .inl (hset.enter _ (.start h.active.ascends.lt_size h.active.eq_home_or_le))
  | ends given _ =>
    refine Confined.finish ?_ given
    exact ⟨h.first_le, h.active, h.suspended⟩

theorem step (h : m.Confined first home base) (limits : Limits) :
    (m.step limits).machine.Confined first home base ∨ Leaves limits base (m.step limits) := by
  have hcounted : ∀ steps log, ({ m with steps, log } : Machine).Confined first home base :=
    fun _ _ => ⟨h.first_le, h.active, h.suspended⟩
  have hadvances := advances_step limits m
  generalize m.step limits = progress at hadvances
  cases hadvances with
  | executes _ derives => exact (hcounted _ m.log).of_effect derives.effect
  | stops => exact (hcounted _ m.log).finish none
  | overruns limit _ => exact (hcounted _ _).finish none

theorem sameNames_of_effect {instruction : Instruction} {progress : Progress}
    (h : m.Confined first home base) (heffect : Effect limits m instruction progress) {id : Nat}
    (hid : id < first) (hhome : id ≠ home) : m.heap.SameNames progress.machine.heap id := by
  have hsize : id < m.heap.scopes.size := Nat.lt_of_lt_of_le hid h.first_le
  cases heffect with
  | goes _ _ => exact .refl m.heap id
  | stores name value =>
    have hactive : id ≠ m.active.scope := by
      obtain hscope | hscope := h.active.eq_home_or_le
      · rw [hscope]
        exact hhome
      · omega
    exact Heap.sameNames_assign hactive name value
  | opens => exact fun name => by rw [← m.heap.binding?_addScope (some m.active.scope)]; rfl
  | closes _ _ => exact .refl m.heap id
  | makes name parameters body => exact .refl m.heap id
  | @builds stack entries _ =>
    exact Heap.sameNames_of_scope_eq ((m.setStack stack).scope_buildObject _ [] entries hsize)
  | calls _ _ => exact .refl m.heap id
  | @ends stack log given _ =>
    exact Heap.sameNames_of_scope_eq
      (scope_finish { m with active := { m.active with stack }, log } given hsize)

theorem sameNames_step (h : m.Confined first home base) (limits : Limits) {id : Nat}
    (hid : id < first) (hhome : id ≠ home) : m.heap.SameNames (m.step limits).machine.heap id := by
  have hsize : id < m.heap.scopes.size := Nat.lt_of_lt_of_le hid h.first_le
  have hcounted : ∀ steps, ({ m with steps } : Machine).Confined first home base :=
    fun _ => ⟨h.first_le, h.active, h.suspended⟩
  have hadvances := advances_step limits m
  generalize m.step limits = progress at hadvances
  cases hadvances with
  | executes _ derives => exact (hcounted _).sameNames_of_effect derives.effect hid hhome
  | @stops steps => exact Heap.sameNames_of_scope_eq (scope_finish { m with steps } none hsize)
  | @overruns instruction steps limit _ =>
    exact Heap.sameNames_of_scope_eq
      (scope_finish (({ m with steps } : Machine).report _ _) none hsize)

end Confined

theorem confined_load (code : Code) {root : Nat} {heap : Heap} (hroot : root < heap.scopes.size)
    (steps : Nat) : (load code root heap steps).Confined heap.scopes.size root [] :=
  ⟨Nat.le_refl _, .start hroot (.inl rfl), [], rfl, by simp, rfl⟩

theorem not_leaves_nil (h : m.step limits = .running n) : ¬ Leaves limits [] (m.step limits) := by
  rintro ⟨ended, given, hended, hfinish⟩
  simp [h, finish, hended] at hfinish

theorem Reaches.confined (hreach : Reaches limits m n) (h : m.Confined first home []) :
    n.Confined first home [] :=
  hreach.invariant (Confined first home []) (fun a b ha hstep => by
    have hb := (ha.step limits).resolve_right (not_leaves_nil hstep)
    rwa [hstep] at hb) h

theorem Reaches.sameNames (hreach : Reaches limits m n) (h : m.Confined first home []) {id : Nat}
    (hid : id < first) (hhome : id ≠ home) : m.heap.SameNames n.heap id := by
  induction hreach with
  | refl m => exact .refl m.heap id
  | @next m n _ hstep _ ih =>
    have hnames := h.sameNames_step limits hid hhome
    rw [hstep] at hnames
    exact hnames.trans (ih ((Reaches.single hstep).confined h))

/-- While the body of a function runs, no scope from before the call gets a new name. With the step
that ends the body there is one activation less, so what comes after is not part of it. -/
theorem Confined.through {caller : Activation} {origin : Span} {resume : Nat}
    {rest : List Suspended}
    (hthrough : Through limits (fun k => ⟨caller, .result origin resume⟩ :: rest <:+ k.suspended)
      m n)
    (h : m.Confined first home (⟨caller, .result origin resume⟩ :: rest)) {id : Nat}
    (hid : id < first) (hhome : id ≠ home) : m.heap.SameNames n.heap id := by
  induction hthrough with
  | refl m => exact .refl m.heap id
  | @next m n _ _ hstep tail ih =>
    have hnames := h.sameNames_step limits hid hhome
    obtain hconfined | ⟨ended, given, hended, hfinish⟩ := h.step limits
    · rw [hstep] at hnames hconfined
      exact hnames.trans (ih hconfined)
    · rw [hstep] at hnames hfinish
      have hpopped : n.suspended = rest := by
        simp only [Machine.finish, hended] at hfinish
        rw [Progress.running.inj hfinish]
        rfl
      cases tail with
      | refl _ => exact hnames
      | next hwaits _ _ =>
        rw [hpopped] at hwaits
        have hlength := hwaits.length_le
        rw [List.length_cons] at hlength
        omega

theorem Invokes.confined {callee : Slot} {recorded : List String}
    (h : m.Invokes limits n callee recorded) :
    n.Confined m.heap.scopes.size m.heap.scopes.size n.suspended := by
  obtain ⟨caller, origin, resume, rest, hstep, hbefore, hafter⟩ := h
  have hturn := turn_step limits m
  generalize m.step limits = progress at hturn hstep
  cases hturn with
  | stays hkept =>
    obtain rfl := Progress.running.inj hstep
    simp [hbefore, hafter] at hkept
  | enters hmore =>
    obtain rfl := Progress.running.inj hstep
    simp [hbefore, hafter] at hmore
  | @ends ended given hsuspended hheap _ =>
    rw [hbefore] at hsuspended
    simp only [finish, hsuspended] at hstep
    obtain ⟨o, ho, hkept⟩ | ⟨ref, closure, _, _, hstart⟩ := invoke_cases hstep
    · obtain rfl := Progress.running.inj ho
      simp [hafter] at hkept
    · obtain rfl := Progress.running.inj hstart
      have hsize := (Heap.grows_defineAll (ended.heap.addScope (some closure.scope)).1
        ended.heap.scopes.size (if recorded.isEmpty then closure.parameters else recorded)
        (ended.active.stack.reverse.map (·.value))).size_le
      rw [Heap.size_addScope] at hsize
      rw [← hheap]
      exact ⟨Nat.le_of_succ_le hsize, .start hsize (.inl rfl), [], rfl, by simp, rfl⟩

theorem Confined.activations (h : m.Confined first home []) {a : Activation}
    (ha : a ∈ m.activations) : m.heap.Anchored first home a.root a.scopeDepth a.scope := by
  obtain ⟨above, habove, hwaiting, _⟩ := h.suspended
  rw [List.append_nil] at habove
  obtain rfl | hwaits := List.mem_cons.mp ha
  · exact h.active
  · obtain ⟨s, hs, rfl⟩ := List.mem_map.mp hwaits
    exact hwaiting s (habove ▸ hs)

theorem Confined.outermost (h : m.Confined first home []) :
    (m.activations.map (·.root)).getLast? = some home := by
  obtain ⟨above, habove, _, houtermost⟩ := h.suspended
  rw [List.append_nil] at habove
  rw [Machine.activations, habove, List.map_cons, List.map_map]
  exact houtermost

end Machine

/-- Every activation of every run stands as many scopes inside its root as it counts, and the run's
own root is the one of its first activation. No scope from before the run but the root gets a name
or loses one, nor does, while the body of a function runs, any scope from before the call. -/
theorem scopes_are_closed (code : Code) (limits : Limits) (heap : Heap) (root steps : Nat)
    (hroot : root < heap.scopes.size) :
    let start := Machine.load code root heap steps
    (∀ m, start.Reaches limits m →
      (m.activations.map (·.root)).getLast? = some root ∧
      (∀ a ∈ m.activations, m.heap.outward? a.scopeDepth a.scope = some a.root ∧
        (heap.Housed → ∀ count, m.heap.outward? count a.scope = some a.root →
          count = a.scopeDepth)) ∧
      ∀ id < heap.scopes.size, id ≠ root → heap.SameNames m.heap id) ∧
    (∀ fuel outcome, start.run limits fuel = some outcome →
      ∀ id < heap.scopes.size, id ≠ root → heap.SameNames outcome.machine.heap id) ∧
    ∀ m n callee recorded, start.Reaches limits m → m.Invokes limits n callee recorded →
      ∀ k, Machine.Through limits (fun running => n.suspended <:+ running.suspended) n k →
        ∀ id < m.heap.scopes.size, m.heap.SameNames k.heap id := by
  intro start
  have hstart : start.Confined heap.scopes.size root [] := Machine.confined_load code hroot steps
  refine ⟨fun m hreach => ⟨(hreach.confined hstart).outermost, fun a ha => ?_, fun id hid hne =>
    hreach.sameNames hstart hid hne⟩, fun fuel outcome hrun id hid hne => ?_,
    fun m n callee recorded hreach hinvokes k hthrough id hid => ?_⟩
  · have hclimb := ((hreach.confined hstart).activations ha).ascends.outward?_eq
    refine ⟨hclimb, fun hheap count hcount => ?_⟩
    have hhoused : start.Housed := ⟨hheap, hroot, by simp [start, Machine.load]⟩
    exact (hreach.housed hhoused).heap.outward?_injective hclimb hcount
  · obtain ⟨n, hreach, hend⟩ := Machine.reaches_of_run_eq_some hrun
    have hlast := (hreach.confined hstart).sameNames_step limits hid hne
    rw [hend] at hlast
    exact (hreach.sameNames hstart hid hne).trans hlast
  · have hbody := hinvokes.confined
    obtain ⟨_, _, _, _, _, _, _, hstarts⟩ := hinvokes.startsBody
    obtain ⟨caller, origin, resume, rest, _, _, hafter⟩ := hinvokes
    rw [hafter] at hbody hthrough
    have hne : id ≠ m.heap.scopes.size := Nat.ne_of_lt hid
    have hcalled : m.heap.SameNames n.heap id :=
      Heap.sameNames_of_scope_eq (hstarts.others id (hstarts.fresh ▸ hne))
    exact hcalled.trans (Machine.Confined.through hthrough hbody hid hne)

set_option maxRecDepth 100000 in
/-- Code that closes more scopes than it opens, both at the top and in a function that it calls,
stores to names that are bound nowhere. They come into the root and into the function's own scope;
the scope around the root keeps its one name. -/
theorem scopes_are_closed_of_unbalanced_code :
    let store (name : String) : Code :=
      [.push (.string name) default, .push (.bool false) default, .store false default]
    let leave : Instruction := .plain .endScope default
    let code : Code := [.mk .proc (some (.proc "f" [] (leave :: leave :: store "z"))) default,
      .mk .call (some (.call 0 [])) default, .plain .beginScope default, leave, leave] ++
      store "x" ++ store "y"
    let heap := ((Heap.withGlobalScope.define 0 "y" (.bool true)).addScope (some 0)).1
    let start := Machine.load code 1 heap
    1 < heap.scopes.size ∧
    (∃ outcome, start.run {} 100 = some outcome ∧
      outcome.machine.log.contains .unbalancedScope = true ∧
      (outcome.machine.heap.binding? 1 "x").isSome ∧
      (outcome.machine.heap.binding? 2 "z").isSome ∧ heap.SameNames outcome.machine.heap 0) ∧
    ∃ m n callee, start.Reaches {} m ∧ m.Invokes {} n callee [] ∧
      ∀ k, Machine.Through {} (fun running => n.suspended <:+ running.suspended) n k →
        ∀ id < m.heap.scopes.size, m.heap.SameNames k.heap id := by
  intro store leave code heap start
  have hroot : 1 < heap.scopes.size := by decide +kernel
  obtain ⟨_, hruns, hbodies⟩ := scopes_are_closed code {} heap 1 0 hroot
  have hends : ((start.run {} 100).any fun outcome =>
      outcome.machine.log.contains .unbalancedScope &&
      (outcome.machine.heap.binding? 1 "x").isSome &&
      (outcome.machine.heap.binding? 2 "z").isSome) = true := by
    decide +kernel
  have hcalls : ((start.after {} 2).any fun m =>
      (m.pendingCall? {}).any fun call => call.2 == []) = true := by
    decide +kernel
  obtain ⟨outcome, hrun, hfound⟩ := (Option.any_eq_true _ _).mp hends
  obtain ⟨⟨hwarned, hx⟩, hz⟩ : (outcome.machine.log.contains .unbalancedScope = true ∧
      (outcome.machine.heap.binding? 1 "x").isSome) ∧
      (outcome.machine.heap.binding? 2 "z").isSome := by
    simpa using hfound
  obtain ⟨m, hafter, hpending⟩ := (Option.any_eq_true _ _).mp hcalls
  obtain ⟨⟨closure, recorded⟩, hpending, hrecorded⟩ := (Option.any_eq_true _ _).mp hpending
  obtain rfl : recorded = [] := by simpa using hrecorded
  obtain ⟨n, callee, _, hinvokes, _⟩ := Machine.exists_invokes hpending
  have hreach := Machine.reaches_after hafter
  exact ⟨hroot, ⟨outcome, hrun, hwarned, hx, hz, hruns 100 outcome hrun 0 (by omega) (by decide)⟩,
    m, n, callee, hreach, hinvokes, hbodies m n callee [] hreach hinvokes⟩

end StackScript
