import StackScript.Proofs.Machine.Reach

set_option autoImplicit false

/-!
# The waiting activations

A step leaves the waiting activations as they are, lets the active one wait as well, or ends the
active one. Only in the last case is anything done with the activation that waits.
-/
namespace StackScript.Machine

variable {limits : Limits} {m : Machine}

/-- What a step of `m` can come to. An activation that ends has changed neither the heap nor the
waiting ones with that step, and has put nothing onto its stack. -/
inductive Turn (limits : Limits) (m : Machine) : Progress → Prop where
  | stays {n : Machine} (h : n.suspended = m.suspended) : Turn limits m (.running n)
  | enters {n : Machine} {s : Suspended} (h : n.suspended = s :: m.suspended) :
      Turn limits m (.running n)
  | ends {ended : Machine} (given : Option Value) (suspended : ended.suspended = m.suspended)
      (heap : ended.heap = m.heap) (stack : ended.active.stack <:+ m.active.stack) :
      Turn limits m (ended.finish limits given)

theorem turn_fail (fault : RunFault) (origin : Span) : Turn limits m (m.fail limits fault origin) :=
  .ends none rfl rfl (List.suffix_refl _)

theorem turn_pop (origin : Span) {go : Slot → Machine → Progress}
    (hgo : ∀ slot stack, Turn limits (m.setStack stack) (go slot (m.setStack stack))) :
    Turn limits m (m.pop limits origin go) := by
  unfold pop
  split
  · rename_i slot stack hstack
    have hturn := hgo slot stack
    generalize go slot (m.setStack stack) = progress at hturn
    cases hturn with
    | stays h => exact .stays h
    | enters h => exact .enters h
    | ends given hsuspended hheap hsuffix =>
      exact .ends given hsuspended hheap (hstack ▸ hsuffix.trans (List.suffix_cons slot stack))
  · exact turn_fail _ _

theorem turn_popTwo (origin : Span) {go : Slot → Slot → Machine → Progress}
    (hgo : ∀ top below stack, Turn limits (m.setStack stack) (go top below (m.setStack stack))) :
    Turn limits m (m.popTwo limits origin go) :=
  turn_pop origin fun top _ => turn_pop origin fun below stack => hgo top below stack

theorem turn_result {result : Except CoercionError Value} {origin failed : Span} :
    Turn limits m (match result with
      | .ok value => (m.push value origin).next
      | .error error => (m.report (.coercion error) failed).next) := by
  cases result with
  | ok value => exact .stays rfl
  | error error => exact .stays rfl

theorem turn_withTarget (instruction : Instruction) {go : Nat → Progress}
    (hgo : ∀ target, Turn limits m (go target)) :
    Turn limits m (m.withTarget limits instruction go) := by
  unfold withTarget
  split
  · split
    · exact hgo _
    · exact turn_fail _ _
  · exact turn_fail _ _

theorem turn_jumpIf (instruction : Instruction) (wanted : Bool) :
    Turn limits m (m.jumpIf limits instruction wanted) := by
  refine turn_withTarget instruction fun target => turn_pop _ fun condition stack => ?_
  split
  · split
    · exact .stays rfl
    · exact .stays rfl
  · exact .stays rfl

theorem turn_loadName (origin : Span) : Turn limits m (m.loadName limits origin) := by
  refine turn_pop origin fun slot stack => ?_
  split
  · exact .stays rfl
  · exact .stays rfl

theorem turn_store (keep : Bool) (origin : Span) : Turn limits m (m.store limits keep origin) := by
  refine turn_popTwo origin fun stored slot stack => ?_
  split
  · cases keep with
    | true => exact .stays rfl
    | false => exact .stays rfl
  · exact .stays rfl

theorem turn_index (origin : Span) : Turn limits m (m.index limits origin) := by
  refine turn_popTwo origin fun key target stack => ?_
  split
  · exact .stays rfl
  · exact .stays rfl

theorem turn_endScope (origin : Span) : Turn limits m (m.endScope origin) := by
  unfold endScope
  split
  · exact .stays rfl
  · exact .stays rfl

theorem turn_buildObject (origin : Span) (entries : List (Code × Code)) :
    Turn limits m (m.buildObject origin [] entries) := by
  cases entries with
  | nil => exact .stays rfl
  | cons entry rest => exact .enters rfl

theorem turn_call (count : Nat) (names : List String) (origin : Span) :
    Turn limits m (m.call limits count names origin) := by
  refine turn_pop origin fun callee stack => ?_
  dsimp only
  split
  · exact .enters rfl
  · exact turn_fail _ _

theorem turn_giveBack : Turn limits m (m.giveBack limits) := by
  unfold giveBack
  split
  · rename_i slot stack hstack
    exact .ends _ rfl rfl (hstack ▸ List.suffix_cons slot stack)
  · exact .ends _ rfl rfl (List.suffix_refl _)

theorem turn_execute (limits : Limits) (m : Machine) (instruction : Instruction) :
    Turn limits m (m.execute limits instruction) := by
  unfold execute
  dsimp only
  split
  case h_1 => exact .stays rfl
  case h_2 => exact .stays rfl
  case h_3 => exact turn_buildObject _ _
  case h_4 => exact turn_pop _ fun _ _ => .stays rfl
  case h_5 => exact turn_popTwo _ fun _ _ _ => .stays rfl
  case h_6 => exact turn_pop _ fun _ _ => .stays rfl
  case h_7 => exact turn_loadName _
  case h_8 => exact turn_store _ _
  case h_9 => exact turn_store _ _
  case h_10 => exact turn_index _
  case h_11 => exact .stays rfl
  case h_12 => exact turn_endScope _
  case h_13 => exact turn_withTarget _ fun _ => .stays rfl
  case h_14 => exact turn_jumpIf _ _
  case h_15 => exact turn_jumpIf _ _
  case h_16 => exact turn_call _ _ _
  case h_17 => exact .stays rfl
  case h_18 => exact turn_giveBack
  case h_19 => exact .ends none rfl rfl (List.suffix_refl _)
  case h_20 => exact .stays rfl
  case h_21 =>
    split
    · exact turn_popTwo _ fun _ _ _ => turn_result
    · exact turn_pop _ fun _ _ => turn_result
    · exact turn_fail _ _

theorem turn_step (limits : Limits) (m : Machine) : Turn limits m (m.step limits) := by
  unfold step
  split
  · exact .ends none rfl rfl (List.suffix_refl _)
  · rename_i instruction hcode
    obtain ⟨steps, hcharge | hcharge | ⟨limit, hcharge⟩⟩ := charge_cases limits m instruction.origin
    · rw [hcharge]
      have hturn := turn_execute limits { m with steps } instruction
      dsimp only
      generalize execute limits { m with steps } instruction = progress at hturn ⊢
      cases hturn with
      | stays h => exact .stays h
      | enters h => exact .enters h
      | ends given hsuspended hheap hsuffix => exact .ends given hsuspended hheap hsuffix
    · rw [hcharge]
      exact .ends none rfl rfl (List.suffix_refl _)
    · rw [hcharge]
      exact .ends none rfl rfl (List.suffix_refl _)

def startBody (m : Machine) (closure : Closure) (names : List String) (arguments : List Value)
    (origin : Span) (resume : Nat) : Machine :=
  { m with
    heap := (m.heap.addScope (some closure.scope)).1.defineAll m.heap.scopes.size names arguments
    active := .start closure.body m.heap.scopes.size (m.active.depth + 1)
    suspended := ⟨m.active, .result origin resume⟩ :: m.suspended }

theorem invoke_eq_startBody {callee : Slot} {ref : FunctionRef} {closure : Closure}
    (recorded : List String) (arguments : List Value) (origin : Span) (resume : Nat)
    (hcallee : callee.value = .function ref) (hclosure : m.heap.closure? ref = some closure)
    (hdepth : m.active.depth < limits.maxCallDepth) :
    m.invoke limits callee recorded arguments origin resume =
      .running (m.startBody closure (if recorded.isEmpty then closure.parameters else recorded)
        arguments origin resume) := by
  have hshallow : ¬ m.active.depth + 1 > limits.maxCallDepth := by omega
  simp only [invoke, hcallee, hshallow, if_false, hclosure]
  rfl

theorem invoke_cases {callee : Slot} {recorded : List String} {arguments : List Value}
    {origin : Span} {resume : Nat} {progress : Progress}
    (h : m.invoke limits callee recorded arguments origin resume = progress) :
    (∃ n, progress = .running n ∧ n.suspended = m.suspended) ∨
    ∃ ref closure, callee.value = .function ref ∧ m.heap.closure? ref = some closure ∧
      progress = .running (m.startBody closure
        (if recorded.isEmpty then closure.parameters else recorded) arguments origin resume) := by
  unfold invoke at h
  split at h
  · rename_i ref hcallee
    split at h
    · exact .inl ⟨_, h.symm, rfl⟩
    · split at h
      · exact .inl ⟨_, h.symm, rfl⟩
      · rename_i closure hclosure
        exact .inr ⟨ref, closure, hcallee, hclosure, h.symm⟩
  · exact .inl ⟨_, h.symm, rfl⟩

end StackScript.Machine
