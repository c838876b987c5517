import StackScript.Session
import StackScript.Proofs.Machine.Conclusion
import StackScript.Proofs.Machine.Provenance

set_option autoImplicit false

/-!
# How deep calls nest

Arguments and the entries of objects run in activations of their own, but only the body of a
function counts for the depth of calls. So the depth of an activation is the number of bodies among
it and those that wait for it to end, and a call that would exceed the limit is over once it has its
arguments.
-/
namespace StackScript

def Awaited.isResult : Awaited → Bool
  | .result _ _ => true
  | _ => false

/-- The number of function bodies that these activations wait for. -/
def bodies (suspended : List Suspended) : Nat := suspended.countP fun s => s.awaited.isResult

/-- The depth of every activation is the number of bodies among it and those that wait for it. -/
structure Machine.Nests (limits : Limits) (m : Machine) : Prop where
  active : m.active.depth = bodies m.suspended
  waiting : ∀ s rest, s :: rest <:+ m.suspended → s.activation.depth = bodies rest
  bound : bodies m.suspended ≤ limits.maxCallDepth

def Progress.Nests (limits : Limits) : Progress → Prop
  | .running m => m.Nests limits
  | .finished _ => True

theorem bodies_le_of_suffix {suspended rest : List Suspended} (h : rest <:+ suspended) :
    bodies rest ≤ bodies suspended :=
  h.sublist.countP_le

namespace Machine

variable {limits : Limits} {m n : Machine}

theorem nests_load (code : Code) (scope : Nat) (heap : Heap) (steps : Nat) :
    (load code scope heap steps).Nests limits where
  active := rfl
  waiting s rest h := by simp [load] at h
  bound := Nat.zero_le _

theorem Nests.of_eq (h : m.Nests limits) (hdepth : n.active.depth = m.active.depth)
    (hsuspended : n.suspended = m.suspended) : n.Nests limits where
  active := by rw [hdepth, hsuspended, h.active]
  waiting := by rw [hsuspended]; exact h.waiting
  bound := by rw [hsuspended]; exact h.bound

theorem Nests.enter (h : m.Nests limits) {activation : Activation} {awaited : Awaited}
    (hdepth : activation.depth = bodies (⟨m.active, awaited⟩ :: m.suspended))
    (hbound : activation.depth ≤ limits.maxCallDepth) :
    (m.enter activation awaited).Nests limits where
  active := hdepth
  waiting s rest hsuffix := by
    obtain heq | hold := List.suffix_cons_iff.mp hsuffix
    · obtain ⟨rfl, rfl⟩ := List.cons.inj heq
      exact h.active
    · exact h.waiting s rest hold
  bound := hdepth ▸ hbound

theorem Nests.enter_same (h : m.Nests limits) {activation : Activation} {awaited : Awaited}
    (hdepth : activation.depth = m.active.depth) (hawaited : awaited.isResult = false) :
    (m.enter activation awaited).Nests limits := by
  have hbodies : bodies (⟨m.active, awaited⟩ :: m.suspended) = bodies m.suspended :=
    List.countP_cons_of_neg (by simp [hawaited])
  refine h.enter ?_ ?_
  · rw [hbodies, hdepth, h.active]
  · rw [hdepth, h.active]
    exact h.bound

theorem Nests.enterEntry (h : m.Nests limits) (code : Code) {awaited : Awaited}
    (hawaited : awaited.isResult = false) : (m.enterEntry code awaited).Nests limits := by
  have hheap : ({ m with heap := (m.heap.addScope (some m.active.scope)).1 } : Machine).Nests
      limits := h.of_eq rfl rfl
  exact hheap.enter_same rfl hawaited

theorem Nests.buildObject (h : m.Nests limits) (origin : Span) (built : List (Value × Value))
    (entries : List (Code × Code)) : (m.buildObject origin built entries).Nests limits := by
  cases entries with
  | nil => exact h.of_eq rfl rfl
  | cons entry rest => exact h.enterEntry entry.1 rfl

theorem Nests.invoke (h : m.Nests limits) (callee : Slot) (names : List String)
    (arguments : List Value) (origin : Span) (resume : Nat) :
    (m.invoke limits callee names arguments origin resume).Nests limits := by
  unfold Machine.invoke
  split
  · split
    · exact h.of_eq rfl rfl
    · rename_i hshallow
      split
      · exact h.of_eq rfl rfl
      · rename_i closure _
        let heap := ((m.heap.addScope (some closure.scope)).1.defineAll m.heap.scopes.size
          (if names.isEmpty then closure.parameters else names) arguments)
        have hheap : ({ m with heap } : Machine).Nests limits := h.of_eq rfl rfl
        refine hheap.enter ?_ (Nat.not_lt.mp hshallow)
        show m.active.depth + 1 = bodies _
        rw [h.active]
        exact (List.countP_cons_of_pos rfl).symm
  · exact h.of_eq rfl rfl

theorem Nests.finish (h : m.Nests limits) (given : Option Value) :
    (m.finish limits given).Nests limits := by
  unfold Machine.finish
  split
  · trivial
  · rename_i caller rest hsuspended
    have hresumed : ({ m with active := caller.activation, suspended := rest } : Machine).Nests
        limits := by
      refine ⟨h.waiting caller rest (hsuspended ▸ List.suffix_refl _), fun s below hsuffix => ?_, ?_⟩
      · exact h.waiting s below (hsuspended ▸ hsuffix.trans (List.suffix_cons _ _))
      · exact Nat.le_trans (bodies_le_of_suffix (hsuspended ▸ List.suffix_cons _ _)) h.bound
    dsimp only
    split
    · exact hresumed.invoke _ _ _ _ _
    · exact hresumed.of_eq rfl rfl
    · exact hresumed.enterEntry _ rfl
    · exact hresumed.buildObject _ _ _

theorem Nests.of_derives (h : m.Nests limits) {instruction : Instruction} {progress : Progress}
    (hderives : Derives limits m instruction progress) : progress.Nests limits := by
  cases hderives with
  | goes _ _ _ => exact h.of_eq rfl rfl
  | stores name _ _ => exact h.of_eq rfl rfl
  | opens _ => exact h.of_eq rfl rfl
  | closes _ _ _ => exact h.of_eq rfl rfl
  | makes _ _ => exact h.of_eq rfl rfl
  | builds _ _ =>
    refine Nests.buildObject ?_ _ _ _
    exact h.of_eq rfl rfl
  | calls _ _ _ _ =>
    refine Nests.enter_same ?_ rfl rfl
    exact h.of_eq rfl rfl
  | ends _ _ _ =>
    refine Nests.finish ?_ _
    exact h.of_eq rfl rfl

theorem Nests.step (h : m.Nests limits) : (m.step limits).Nests limits := by
  have hadvances := advances_step limits m
  generalize m.step limits = progress at hadvances
  cases hadvances with
  | executes _ derives =>
    refine Nests.of_derives ?_ derives
    exact h.of_eq rfl rfl
  | stops =>
    refine Nests.finish ?_ none
    exact h.of_eq rfl rfl
  | overruns limit _ =>
    refine Nests.finish ?_ none
    exact h.of_eq rfl rfl

theorem Reaches.nests (hreach : Reaches limits m n) (h : m.Nests limits) : n.Nests limits := by
  refine hreach.invariant (Machine.Nests limits) (fun a b ha hs => ?_) h
  have hstep := ha.step
  rwa [hs] at hstep

theorem Nests.depth_le (h : m.Nests limits) : m.active.depth ≤ limits.maxCallDepth ∧
    ∀ s ∈ m.suspended, s.activation.depth ≤ limits.maxCallDepth := by
  refine ⟨h.active ▸ h.bound, fun s hs => ?_⟩
  obtain ⟨above, rest, hsplit⟩ := List.append_of_mem hs
  have hsuffix : s :: rest <:+ m.suspended := ⟨above, hsplit.symm⟩
  rw [h.waiting s rest hsuffix]
  exact Nat.le_trans (bodies_le_of_suffix ((List.suffix_cons s rest).trans hsuffix)) h.bound

theorem call_eq_enter {callee : Slot} {stack : List Slot} {count : Nat}
    (hstack : m.active.stack = callee :: stack)
    (hinside : m.active.pointer + 1 + count ≤ m.active.code.length) (names : List String)
    (origin : Span) :
    m.call limits count names origin = (m.setStack stack).enter
      (.start ((m.active.code.drop (m.active.pointer + 1)).take count) m.active.scope
        m.active.depth)
      (.arguments callee names origin (m.active.pointer + 1 + count)) := by
  unfold call pop
  rw [hstack]
  exact if_pos hinside

/-- With a step the waiting activations go on waiting, or the active one ends, having changed neither
the heap nor the waiting ones and having reported no call. -/
theorem step_waits_or_ends (limits : Limits) (m : Machine) :
    (∃ n, m.step limits = .running n ∧ m.suspended <:+ n.suspended) ∨
    ∃ ended given reports, m.step limits = finish limits ended given ∧
      ended.suspended = m.suspended ∧ ended.heap = m.heap ∧
      ended.log.toList = m.log.toList ++ reports ∧
      ∀ d ∈ reports, d.code ≠ .callDepthExceeded := by
  have hadvances := advances_step limits m
  generalize m.step limits = progress at hadvances
  cases hadvances with
  | stops => exact .inr ⟨_, none, [], rfl, rfl, rfl, by simp, by simp⟩
  | @overruns instruction steps limit _ =>
    exact .inr ⟨_, none, [_], rfl, rfl, rfl, toList_push _ _,
      by simp [RunFault.diagnostic, RunFault.code]⟩
  | executes _ derives =>
    cases derives with
    | goes _ _ _ => exact .inl ⟨_, rfl, List.suffix_refl _⟩
    | stores name _ _ => exact .inl ⟨_, rfl, List.suffix_refl _⟩
    | opens _ => exact .inl ⟨_, rfl, List.suffix_refl _⟩
    | closes _ _ _ => exact .inl ⟨_, rfl, List.suffix_refl _⟩
    | makes _ _ => exact .inl ⟨_, rfl, List.suffix_refl _⟩
    | @builds stack entries _ _ =>
      cases entries with
      | nil => exact .inl ⟨_, rfl, List.suffix_refl _⟩
      | cons entry rest => exact .inl ⟨_, rfl, List.suffix_cons _ _⟩
    | calls _ _ _ _ => exact .inl ⟨_, rfl, List.suffix_cons _ _⟩
    | ends _ _ logs =>
      cases logs with
      | nothing => exact .inr ⟨_, _, [], rfl, rfl, rfl, by simp, by simp⟩
      | fault blames _ =>
        refine .inr ⟨_, _, [_], rfl, rfl, rfl, toList_push _ _, fun d hd => ?_⟩
        obtain rfl := List.mem_singleton.mp hd
        exact blames.ne_callDepth

theorem finish_waits {caller : Suspended} {rest : List Suspended}
    (h : m.suspended = caller :: rest) (given : Option Value) :
    ∃ n, m.finish limits given = .running n ∧ rest <:+ n.suspended := by
  obtain ⟨activation, awaited⟩ := caller
  simp only [finish, h]
  cases awaited with
  | arguments callee names origin resume =>
    obtain ⟨n, hn, hkept⟩ | ⟨ref, closure, _, _, hn⟩ := invoke_cases (Eq.refl
      (invoke limits { m with active := activation, suspended := rest } callee names
        (m.active.stack.reverse.map (·.value)) origin resume))
    · exact ⟨n, hn, hkept ▸ List.suffix_refl _⟩
    · exact ⟨_, hn, List.suffix_cons _ _⟩
  | result origin resume => exact ⟨_, rfl, List.suffix_refl _⟩
  | key origin built value entries => exact ⟨_, rfl, List.suffix_cons _ _⟩
  | value origin built key entries =>
    cases entries with
    | nil => exact ⟨_, rfl, List.suffix_refl _⟩
    | cons entry entries => exact ⟨_, rfl, List.suffix_cons _ _⟩

/-- What a call at the limit leaves once its arguments are done: the caller goes on behind them with
`none` for the value, and the last report is of the call. -/
structure Refuses (k o : Machine) (caller : Activation) (below : List Suspended) (resume : Nat)
    (origin : Span) (d : Diagnostic) : Prop where
  active : o.active = { caller with pointer := resume, stack := ⟨origin, .none⟩ :: caller.stack }
  suspended : o.suspended = below
  heap : o.heap = k.heap
  log : ∃ reports, o.log.toList = k.log.toList ++ reports ++ [d] ∧
    ∀ e ∈ reports, e.code ≠ .callDepthExceeded

theorem finish_refuses {caller : Activation} {callee : Slot} {ref : FunctionRef}
    {names : List String} {origin : Span} {resume : Nat} {below : List Suspended}
    (hsuspended : m.suspended = ⟨caller, .arguments callee names origin resume⟩ :: below)
    (hcallee : callee.value = .function ref) (hdepth : caller.depth = limits.maxCallDepth)
    (given : Option Value) :
    ∃ o, m.finish limits given = .running o ∧
      o.active = { caller with pointer := resume, stack := ⟨origin, .none⟩ :: caller.stack } ∧
      o.suspended = below ∧ o.heap = m.heap ∧ o.log.toList = m.log.toList ++
        [(RunFault.callTooDeep ref.name limits.maxCallDepth).diagnostic origin] := by
  have hdeep : caller.depth + 1 > limits.maxCallDepth := by omega
  simp only [finish, hsuspended, invoke, hcallee, if_pos hdeep]
  exact ⟨_, rfl, rfl, rfl, rfl, toList_push _ _⟩

/-- While the arguments of a call at the limit run, the call waits, and when they end it is over. -/
theorem step_refuses {caller : Activation} {callee : Slot} {ref : FunctionRef}
    {names : List String} {origin : Span} {resume : Nat} {below : List Suspended}
    (hcallee : callee.value = .function ref) (hdepth : caller.depth = limits.maxCallDepth)
    (hwaits : ⟨caller, .arguments callee names origin resume⟩ :: below <:+ m.suspended) :
    ∃ o, m.step limits = .running o ∧
      (⟨caller, .arguments callee names origin resume⟩ :: below <:+ o.suspended ∨
        m.Refuses o caller below resume origin
          ((RunFault.callTooDeep ref.name limits.maxCallDepth).diagnostic origin)) := by
  obtain ⟨o, hstep, hkept⟩ | ⟨ended, given, reports, hstep, hsuspended, hheap, hlog, hreports⟩ :=
    step_waits_or_ends limits m
  · exact ⟨o, hstep, .inl (hwaits.trans hkept)⟩
  · rw [← hsuspended] at hwaits
    cases hrest : ended.suspended with
    | nil => simp [hrest] at hwaits
    | cons s rest =>
      rw [hrest] at hwaits
      obtain heq | hinner := List.suffix_cons_iff.mp hwaits
      · obtain ⟨rfl, rfl⟩ := List.cons.inj heq
        obtain ⟨o, hfinish, hactive, hbelow, hsame, hlast⟩ :=
          finish_refuses hrest hcallee hdepth given
        refine ⟨o, hstep.trans hfinish,
          .inr ⟨hactive, hbelow, hsame.trans hheap, reports, ?_, hreports⟩⟩
        rw [hlast, hlog]
      · obtain ⟨o, hfinish, hkept⟩ := @finish_waits limits _ _ _ hrest given
        exact ⟨o, hstep.trans hfinish, .inl (hinner.trans hkept)⟩

theorem Reaches.refuses {caller : Activation} {callee : Slot} {ref : FunctionRef}
    {names : List String} {origin : Span} {resume : Nat} {below : List Suspended}
    (hcallee : callee.value = .function ref) (hdepth : caller.depth = limits.maxCallDepth)
    (hreach : Reaches limits m n)
    (hwaits : ⟨caller, .arguments callee names origin resume⟩ :: below <:+ m.suspended) :
    ⟨caller, .arguments callee names origin resume⟩ :: below <:+ n.suspended ∨
    ∃ j o, Through limits
        (fun k => ⟨caller, .arguments callee names origin resume⟩ :: below <:+ k.suspended) m j ∧
      j.step limits = .running o ∧
      j.Refuses o caller below resume origin
        ((RunFault.callTooDeep ref.name limits.maxCallDepth).diagnostic origin) ∧
      Reaches limits o n := by
  induction hreach with
  | refl m => exact .inl hwaits
  | @next m next n hs tail ih =>
    obtain ⟨o, hstep, hkept | hrefuses⟩ := step_refuses hcallee hdepth hwaits
    · obtain rfl := Progress.running.inj (hs.symm.trans hstep)
      obtain hlater | ⟨j, o, hthrough, hj, hrefuses, hrest⟩ := ih hkept
      · exact .inl hlater
      · exact .inr ⟨j, o, .next hwaits hs hthrough, hj, hrefuses, hrest⟩
    · obtain rfl := Progress.running.inj (hs.symm.trans hstep)
      exact .inr ⟨m, next, .refl m, hs, hrefuses, tail⟩

end Machine

/-- However a run comes to it, the depth of each activation is the number of function bodies among it
and those that wait for it, and that number does not exceed the limit. A call of a function at the
limit runs its arguments. Every later state of the run is one of theirs, in which the run does not
end, or comes after the call is over: the call reports once that it is too deep and goes on behind
the arguments with `none`, and no body has started. -/
theorem call_depth_bounded (code : Code) (scope : Nat) (heap : Heap) (steps : Nat) (limits : Limits)
    {m : Machine} (hreach : (Machine.load code scope heap steps).Reaches limits m) :
    (m.active.depth = bodies m.suspended ∧
      (∀ s rest, s :: rest <:+ m.suspended → s.activation.depth = bodies rest) ∧
      m.active.depth ≤ limits.maxCallDepth ∧
      ∀ s ∈ m.suspended, s.activation.depth ≤ limits.maxCallDepth) ∧
    ∀ count names origin callee stack ref,
      m.active.code[m.active.pointer]? = some (.mk .call (some (.call count names)) origin) →
      ¬ m.OutOfSteps limits → m.active.stack = callee :: stack → callee.value = .function ref →
      m.active.depth = limits.maxCallDepth →
      m.active.pointer + 1 + count ≤ m.active.code.length →
      ∃ n, m.step limits = .running n ∧
        n.active = .start ((m.active.code.drop (m.active.pointer + 1)).take count) m.active.scope
          m.active.depth ∧
        n.suspended = ⟨{ m.active with stack },
          .arguments callee names origin (m.active.pointer + 1 + count)⟩ :: m.suspended ∧
        n.heap = m.heap ∧ n.log = m.log ∧
        ∀ k, n.Reaches limits k →
          (n.suspended <:+ k.suspended ∧ ∃ o, k.step limits = .running o) ∨
          ∃ j o, Machine.Through limits (fun k => n.suspended <:+ k.suspended) n j ∧
            j.step limits = .running o ∧
            j.Refuses o { m.active with stack } m.suspended (m.active.pointer + 1 + count) origin
              ((RunFault.callTooDeep ref.name limits.maxCallDepth).diagnostic origin) ∧
            o.Reaches limits k := by
  have hnests := hreach.nests (Machine.nests_load code scope heap steps)
  refine ⟨⟨hnests.active, hnests.waiting, hnests.depth_le⟩, ?_⟩
  intro count names origin callee stack ref hcode hsteps hstack hcallee hdepth hinside
  obtain hout | ⟨steps, hstep⟩ := Machine.step_of_instruction limits hcode
  · exact absurd hout hsteps
  · have hcall := hstep.trans
      (@Machine.call_eq_enter limits { m with steps } _ _ _ hstack hinside names origin)
    have hcaller : ({ m.active with stack } : Activation).depth = limits.maxCallDepth := hdepth
    refine ⟨_, hcall, rfl, rfl, rfl, rfl, fun k hk => ?_⟩
    obtain hwaits | hover := hk.refuses hcallee hcaller (List.suffix_refl _)
    · obtain ⟨o, hnext, _⟩ := Machine.step_refuses hcallee hcaller hwaits
      exact .inl ⟨hwaits, o, hnext⟩
    · exact .inr hover

/-- The machine stands at the call of a function whose arguments are all there. -/
def Machine.atCall (m : Machine) : Bool :=
  match m.active.code[m.active.pointer]?, m.active.stack with
  | some (.mk .call (some (.call count _)) _), ⟨_, .function _⟩ :: _ =>
    m.active.pointer + 1 + count ≤ m.active.code.length
  | _, _ => false

theorem Machine.exists_of_atCall {m : Machine} (h : m.atCall = true) :
    ∃ count names origin callee stack ref,
      m.active.code[m.active.pointer]? = some (.mk .call (some (.call count names)) origin) ∧
      m.active.stack = callee :: stack ∧ callee.value = .function ref ∧
      m.active.pointer + 1 + count ≤ m.active.code.length := by
  unfold atCall at h
  split at h
  · rename_i count names origin place ref stack hcode hstack
    exact ⟨count, names, origin, ⟨place, .function ref⟩, stack, ref, hcode, hstack, rfl,
      of_decide_eq_true h⟩
  · simp at h

set_option maxRecDepth 100000 in
/-- The call in the argument of a call inside the body is one too many: four steps later it is over,
and the caller goes on. -/
theorem call_depth_bounded_of_call_in_argument :
    let start := Machine.load (Globals.compile .empty "fn f(n) -> f(f(n)); f(1)").code 0
      Heap.withGlobalScope
    let limits : Limits := { maxCallDepth := 1 }
    ∃ m n j o caller resume origin ref, start.Reaches limits m ∧ m.active.depth = 1 ∧
      bodies m.suspended = 1 ∧ m.suspended.length = 2 ∧ m.step limits = .running n ∧
      n.suspended.length = 3 ∧ n.Reaches limits j ∧ j.step limits = .running o ∧
      j.Refuses o caller m.suspended resume origin
        ((RunFault.callTooDeep ref 1).diagnostic origin) := by
  intro start limits
  have hrun : ((start.after limits 13).any fun m => m.atCall && m.active.depth == 1 &&
      m.suspended.length == 2 && (m.after limits 4).any fun k => k.suspended.length == 2) = true := by
    decide +kernel
  obtain ⟨m, hafter, htests⟩ := (Option.any_eq_true _ _).mp hrun
  simp only [Bool.and_eq_true, beq_iff_eq, Option.any_eq_true] at htests
  obtain ⟨⟨⟨hcall, hdepth⟩, hlength⟩, k, hk, hshort⟩ := htests
  obtain ⟨count, names, origin, callee, stack, ref, hcode, hstack, hcallee, hinside⟩ :=
    Machine.exists_of_atCall hcall
  have hreach : start.Reaches limits m := Machine.reaches_after hafter
  have hbounded := call_depth_bounded _ 0 Heap.withGlobalScope 0 limits hreach
  obtain ⟨n, hstep, _, hwaiting, _, _, hlater⟩ := hbounded.2 count names origin callee stack ref
    hcode (by rintro ⟨limit, hlimit, _⟩; cases hlimit) hstack hcallee hdepth hinside
  have hmore : n.suspended.length = 3 := by rw [hwaiting, List.length_cons, hlength]
  have hnext : n.Reaches limits k := by
    rw [Machine.after, hstep] at hk
    exact Machine.reaches_after hk
  obtain ⟨hwaits, _⟩ | ⟨j, o, hthrough, hj, hrefuses, _⟩ := hlater k hnext
  · have hle := hwaits.length_le
    omega
  · exact ⟨m, n, j, o, _, _, _, ref.name, hreach, hdepth, hdepth ▸ hbounded.1.1.symm, hlength, hstep,
      hmore, hthrough.reaches, hj, hrefuses⟩

end StackScript
