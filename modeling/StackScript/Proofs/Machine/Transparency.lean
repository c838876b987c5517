import StackScript.Proofs.Machine.StepLimit

set_option autoImplicit false

/-!
# A step limit that is not reached

Instructions do not look at the count of steps, nor at the limit: only the attempt to run one does.
So two machines that differ in the count do the same under different limits, as long as neither
limit is exceeded. A run that does not report that its steps have run out is the run under any higher
limit, and under none.
-/
namespace StackScript

def Progress.withSteps (steps : Nat) : Progress → Progress
  | .running m => .running { m with steps }
  | .finished outcome => .finished { outcome with machine := { outcome.machine with steps } }

namespace Machine

def withSteps (m : Machine) (steps : Nat) : Machine := { m with steps }

theorem active_withSteps (m : Machine) (steps : Nat) : (m.withSteps steps).active = m.active := rfl

theorem heap_withSteps (m : Machine) (steps : Nat) : (m.withSteps steps).heap = m.heap := rfl

section Counted

variable {limits other : Limits} (hdepth : other.maxCallDepth = limits.maxCallDepth) (steps : Nat)
  (m : Machine)

theorem withSteps_buildObject (origin : Span) (built : List (Value × Value))
    (entries : List (Code × Code)) :
    (m.withSteps steps).buildObject origin built entries =
      (m.buildObject origin built entries).withSteps steps := by
  cases entries <;> rfl

include hdepth

theorem withSteps_invoke (callee : Slot) (names : List String) (arguments : List Value)
    (origin : Span) (resume : Nat) :
    (m.withSteps steps).invoke other callee names arguments origin resume =
      (m.invoke limits callee names arguments origin resume).withSteps steps := by
  unfold invoke
  rw [hdepth]
  cases callee.value with
  | function ref =>
    dsimp only
    show (if m.active.depth + 1 > limits.maxCallDepth then _ else _) = _
    by_cases hdeep : m.active.depth + 1 > limits.maxCallDepth
    · rw [if_pos hdeep, if_pos hdeep]
      rfl
    · rw [if_neg hdeep, if_neg hdeep]
      rw [heap_withSteps]
      cases m.heap.closure? ref <;> rfl
  | _ => rfl

theorem withSteps_finish (given : Option Value) :
    (m.withSteps steps).finish other given = (m.finish limits given).withSteps steps := by
  obtain ⟨active, suspended, heap, count, log⟩ := m
  cases suspended with
  | nil => rfl
  | cons caller suspended =>
    obtain ⟨activation, awaited⟩ := caller
    cases awaited with
    | arguments callee names origin resume =>
      exact withSteps_invoke hdepth steps ⟨activation, suspended, heap, count, log⟩ _ _ _ _ _
    | result origin resume => rfl
    | key origin built value rest => rfl
    | value origin built key rest =>
      exact withSteps_buildObject steps ⟨activation, suspended, heap, count, log⟩ _ _ _

theorem withSteps_fail (fault : RunFault) (origin : Span) :
    (m.withSteps steps).fail other fault origin = (m.fail limits fault origin).withSteps steps :=
  withSteps_finish hdepth steps (m.report fault origin) none

theorem withSteps_pop (origin : Span) {go go' : Slot → Machine → Progress}
    (hgo : ∀ slot stack, go' slot ((m.setStack stack).withSteps steps) =
      (go slot (m.setStack stack)).withSteps steps) :
    (m.withSteps steps).pop other origin go' = (m.pop limits origin go).withSteps steps := by
  unfold pop
  rw [active_withSteps]
  cases m.active.stack with
  | nil => exact withSteps_fail hdepth steps m _ origin
  | cons slot stack => exact hgo slot stack

theorem withSteps_popTwo (origin : Span) {go go' : Slot → Slot → Machine → Progress}
    (hgo : ∀ top below stack, go' top below ((m.setStack stack).withSteps steps) =
      (go top below (m.setStack stack)).withSteps steps) :
    (m.withSteps steps).popTwo other origin go' = (m.popTwo limits origin go).withSteps steps :=
  withSteps_pop hdepth steps m origin fun top stack =>
    withSteps_pop hdepth steps (m.setStack stack) origin fun below stack => hgo top below stack

theorem withSteps_withTarget (instruction : Instruction) {go go' : Nat → Progress}
    (hgo : ∀ target, go' target = (go target).withSteps steps) :
    (m.withSteps steps).withTarget other instruction go' =
      (m.withTarget limits instruction go).withSteps steps := by
  unfold withTarget
  cases instruction.target? with
  | none => exact withSteps_fail hdepth steps m _ _
  | some target =>
    show (if target < m.active.code.length then _ else _) =
      (if target < m.active.code.length then _ else _ : Progress).withSteps steps
    split
    · exact hgo target
    · exact withSteps_fail hdepth steps m _ _

theorem withSteps_jumpIf (instruction : Instruction) (wanted : Bool) :
    (m.withSteps steps).jumpIf other instruction wanted =
      (m.jumpIf limits instruction wanted).withSteps steps := by
  refine withSteps_withTarget hdepth steps m instruction fun target =>
    withSteps_pop hdepth steps m _ fun condition stack => ?_
  cases condition.value.toBool with
  | error error => rfl
  | ok truth =>
    dsimp only
    split <;> rfl

theorem withSteps_loadName (origin : Span) :
    (m.withSteps steps).loadName other origin = (m.loadName limits origin).withSteps steps := by
  refine withSteps_pop hdepth steps m origin fun slot stack => ?_
  cases slot.value <;> rfl

theorem withSteps_store (keep : Bool) (origin : Span) :
    (m.withSteps steps).store other keep origin = (m.store limits keep origin).withSteps steps := by
  refine withSteps_popTwo hdepth steps m origin fun stored slot stack => ?_
  cases slot.value with
  | string name => cases keep <;> rfl
  | _ => rfl

theorem withSteps_index (origin : Span) :
    (m.withSteps steps).index other origin = (m.index limits origin).withSteps steps := by
  refine withSteps_popTwo hdepth steps m origin fun key target stack => ?_
  cases target.value <;> rfl

omit hdepth in
theorem withSteps_endScope (origin : Span) :
    (m.withSteps steps).endScope origin = (m.endScope origin).withSteps steps := by
  unfold endScope
  rw [heap_withSteps, active_withSteps]
  cases (m.heap.scope m.active.scope).enclosing with
  | none => rfl
  | some scope => cases m.active.scopeDepth <;> rfl

theorem withSteps_call (count : Nat) (names : List String) (origin : Span) :
    (m.withSteps steps).call other count names origin =
      (m.call limits count names origin).withSteps steps := by
  refine withSteps_pop hdepth steps m origin fun callee stack => ?_
  show (if m.active.pointer + 1 + count ≤ m.active.code.length then _ else _) =
    (if m.active.pointer + 1 + count ≤ m.active.code.length then _ else _ : Progress).withSteps steps
  split
  · rfl
  · exact withSteps_fail hdepth steps (m.setStack stack) _ origin

theorem withSteps_giveBack :
    (m.withSteps steps).giveBack other = (m.giveBack limits).withSteps steps := by
  unfold giveBack
  rw [active_withSteps]
  cases m.active.stack with
  | nil => exact withSteps_finish hdepth steps m _
  | cons slot stack => exact withSteps_finish hdepth steps (m.setStack stack) _

theorem withSteps_binary (origin : Span)
    (operation : Value → Value → Except CoercionError Value) :
    (m.withSteps steps).binary other origin operation =
      (m.binary limits origin operation).withSteps steps := by
  refine withSteps_popTwo hdepth steps m origin fun right left stack => ?_
  cases operation left.value right.value <;> rfl

theorem withSteps_unary (origin : Span) (operation : Value → Except CoercionError Value) :
    (m.withSteps steps).unary other origin operation =
      (m.unary limits origin operation).withSteps steps := by
  refine withSteps_pop hdepth steps m origin fun operand stack => ?_
  cases operation operand.value <;> rfl

theorem withSteps_execute (instruction : Instruction) :
    (m.withSteps steps).execute other instruction =
      (m.execute limits instruction).withSteps steps := by
  unfold execute
  dsimp only
  split
  case h_1 => rfl
  case h_2 => rfl
  case h_3 => exact withSteps_buildObject steps m _ _ _
  case h_4 => exact withSteps_pop hdepth steps m _ fun _ _ => rfl
  case h_5 => exact withSteps_popTwo hdepth steps m _ fun _ _ _ => rfl
  case h_6 => exact withSteps_pop hdepth steps m _ fun _ _ => rfl
  case h_7 => exact withSteps_loadName hdepth steps m _
  case h_8 => exact withSteps_store hdepth steps m _ _
  case h_9 => exact withSteps_store hdepth steps m _ _
  case h_10 => exact withSteps_index hdepth steps m _
  case h_11 => rfl
  case h_12 => exact withSteps_endScope steps m _
  case h_13 => exact withSteps_withTarget hdepth steps m _ fun _ => rfl
  case h_14 => exact withSteps_jumpIf hdepth steps m _ _
  case h_15 => exact withSteps_jumpIf hdepth steps m _ _
  case h_16 => exact withSteps_call hdepth steps m _ _ _
  case h_17 => rfl
  case h_18 => exact withSteps_giveBack hdepth steps m
  case h_19 => exact withSteps_finish hdepth steps m _
  case h_20 => rfl
  case h_21 =>
    split
    · exact withSteps_binary hdepth steps m _ _
    · exact withSteps_unary hdepth steps m _ _
    · exact withSteps_fail hdepth steps m _ _

end Counted

variable {limits other : Limits} {limit steps : Nat} {m : Machine}

/-- A step that does not exceed the lower limit is the same step under the higher one. The counts go
on in step, if the higher limit counts at all. -/
theorem step_withSteps (hlimit : limits.stepLimit = some limit)
    (hdepth : other.maxCallDepth = limits.maxCallDepth)
    (hother : ∀ bound, other.stepLimit = some bound → limit ≤ bound ∧ steps = m.steps)
    (hroom : m.attempts = true → m.steps < limit) :
    ∃ steps', (m.withSteps steps).step other = (m.step limits).withSteps steps' ∧
      ∀ bound, other.stepLimit = some bound → steps' = (m.step limits).machine.steps := by
  cases hcode : m.active.code[m.active.pointer]? with
  | none =>
    have hcode' : (m.withSteps steps).active.code[(m.withSteps steps).active.pointer]? = none := hcode
    have hstep : m.step limits = m.finish limits none := by simp only [step, hcode]
    rw [hstep, steps_finish]
    refine ⟨steps, ?_, fun bound hbound => (hother bound hbound).2⟩
    simp only [step, hcode']
    exact withSteps_finish hdepth steps m none
  | some instruction =>
    have hcode' : (m.withSteps steps).active.code[(m.withSteps steps).active.pointer]? =
        some instruction := hcode
    have hlt : m.steps < limit := hroom (by rw [attempts, hcode, Option.isSome_some])
    have hstep : m.step limits = (m.withSteps (m.steps + 1)).execute limits instruction := by
      simp only [step, hcode, charge, hlimit]
      rw [if_pos (show m.steps + 1 ≤ limit from hlt)]
      rfl
    have hsteps : (m.step limits).machine.steps = m.steps + 1 := by
      rw [hstep]
      exact (effect_execute limits _ instruction).steps_eq
    rw [hsteps, hstep]
    cases hbound : other.stepLimit with
    | none =>
      refine ⟨steps, ?_, by simp⟩
      rw [step_eq_execute hbound hcode', ← withSteps_execute hdepth]
      rfl
    | some bound =>
      obtain ⟨hle, rfl⟩ := hother bound hbound
      refine ⟨m.steps + 1, ?_, fun _ _ => rfl⟩
      simp only [step, hcode', charge, hbound]
      rw [if_pos (show (m.withSteps m.steps).steps + 1 ≤ bound by exact Nat.le_trans hlt hle),
        ← withSteps_execute hdepth]
      rfl

theorem steps_lt_of_quiet (hlimit : limits.stepLimit = some limit) (hm : m.steps ≤ limit)
    (hquiet : (m.step limits).machine.log.overruns ≤ m.log.overruns) :
    m.attempts = true → m.steps < limit := by
  intro htries
  by_cases hfull : m.steps = limit
  · rw [overruns_step hlimit, if_pos ⟨htries, hfull⟩] at hquiet
    omega
  · omega

theorem run_withSteps (hlimit : limits.stepLimit = some limit)
    (hdepth : other.maxCallDepth = limits.maxCallDepth) {fuel : Nat} {outcome : Outcome}
    (hother : ∀ bound, other.stepLimit = some bound → limit ≤ bound ∧ steps = m.steps)
    (hm : m.steps ≤ limit) (hrun : m.run limits fuel = some outcome)
    (hquiet : outcome.machine.log.overruns = m.log.overruns) :
    ∃ steps', (m.withSteps steps).run other fuel =
      some { outcome with machine := outcome.machine.withSteps steps' } := by
  induction fuel generalizing m steps with
  | zero => simp [run] at hrun
  | succ fuel ih =>
    cases hstep : m.step limits with
    | finished last =>
      obtain rfl : last = outcome := by simpa [run, hstep] using hrun
      have hroom := steps_lt_of_quiet hlimit hm (hstep ▸ Nat.le_of_eq hquiet)
      obtain ⟨steps', hsame, -⟩ := step_withSteps hlimit hdepth hother hroom
      refine ⟨steps', ?_⟩
      rw [hstep] at hsame
      simp only [run, hsame, Progress.withSteps]
      rfl
    | running n =>
      have hrest : n.run limits fuel = some outcome := by simpa [run, hstep] using hrun
      have hlast := overruns_run hlimit hrest
      have hstart : m.log.overruns ≤ n.log.overruns := by
        have hoverruns := overruns_step hlimit m
        rw [hstep] at hoverruns
        exact hoverruns ▸ Nat.le_add_right _ _
      have hquiet' : outcome.machine.log.overruns = n.log.overruns := by omega
      have hroom := steps_lt_of_quiet hlimit hm
        (hstep ▸ show n.log.overruns ≤ m.log.overruns by omega)
      obtain ⟨steps', hsame, hcount⟩ := step_withSteps hlimit hdepth hother hroom
      have hle : (m.step limits).machine.steps ≤ limit := by
        rw [steps_step hlimit]
        cases htries : m.attempts with
        | false => exact hm
        | true => exact hroom htries
      rw [hstep] at hsame hcount hle
      obtain ⟨last, hrun'⟩ := ih (fun bound hbound => ⟨(hother bound hbound).1, hcount bound hbound⟩)
        hle hrest hquiet'
      refine ⟨last, ?_⟩
      simp only [run, hsame, Progress.withSteps]
      exact hrun'

end Machine

theorem DiagnosticLog.overruns_eq_zero {log : DiagnosticLog}
    (h : log.contains .stepLimitExceeded = false) : log.overruns = 0 := by
  rw [contains, ← Array.any_toList, List.any_eq_false] at h
  exact List.countP_eq_zero.mpr h

/-- If a run under a limit does not report that its steps have run out, then under any limit that is
not lower, and under none, the run comes to the same value, reports the same diagnostics in the same
order and leaves the same heap. -/
theorem step_limit_is_transparent (code : Code) (scope maxCallDepth limit fuel : Nat) (heap : Heap)
    (higher : Option Nat) (hhigher : ∀ bound, higher = some bound → limit ≤ bound)
    (outcome : Outcome)
    (hrun : (Machine.load code scope heap).run { maxCallDepth, stepLimit := some limit } fuel =
      some outcome)
    (hquiet : outcome.machine.log.contains .stepLimitExceeded = false) :
    ∃ other, (Machine.load code scope heap).run { maxCallDepth, stepLimit := higher } fuel =
        some other ∧
      other.value = outcome.value ∧ other.machine.log = outcome.machine.log ∧
      other.machine.heap = outcome.machine.heap := by
  have hsilent : outcome.machine.log.overruns = 0 := DiagnosticLog.overruns_eq_zero hquiet
  have hlimit : (Limits.mk maxCallDepth (some limit)).stepLimit = some limit := rfl
  have hdepth : (Limits.mk maxCallDepth higher).maxCallDepth =
      (Limits.mk maxCallDepth (some limit)).maxCallDepth := rfl
  obtain ⟨steps, hother⟩ := Machine.run_withSteps hlimit hdepth
    (fun bound hbound => ⟨hhigher bound hbound, rfl⟩) (Nat.zero_le limit) hrun hsilent
  exact ⟨_, hother, rfl, rfl, rfl⟩

set_option maxRecDepth 100000 in
/-- Code that jumps back once, and reports a coercion that fails, takes as many steps as the limit
allows. Without a limit it comes to the same. -/
theorem step_limit_is_transparent_of_backward_jump :
    let load : Code := [.push (.string "x") default, .plain .load default]
    let code : Code := [.push (.string "x") default] ++ load ++ [.plain .not default,
      .store true default, .jump .jnz 0 default, .mk .pushObject (some (.entries [])) default,
      .plain .not default]
    let start := Machine.load code 0 Heap.withGlobalScope
    ∃ outcome other, start.run { stepLimit := some 14 } 100 = some outcome ∧
      outcome.machine.log.contains .stepLimitExceeded = false ∧
      outcome.machine.log.contains .invalidCoercion = true ∧
      start.run { stepLimit := none } 100 = some other ∧
      other.value = outcome.value ∧ other.machine.log = outcome.machine.log ∧
      other.machine.heap = outcome.machine.heap := by
  intro load code start
  have hends : ((start.run { stepLimit := some 14 } 100).any fun outcome =>
      !outcome.machine.log.contains .stepLimitExceeded &&
      outcome.machine.log.contains .invalidCoercion) = true := by
    decide +kernel
  obtain ⟨outcome, hrun, hlog⟩ := (Option.any_eq_true _ _).mp hends
  obtain ⟨hquiet, hfailed⟩ : outcome.machine.log.contains .stepLimitExceeded = false ∧
      outcome.machine.log.contains .invalidCoercion = true := by
    simpa using hlog
  obtain ⟨other, hother, hsame⟩ := step_limit_is_transparent code 0 128 14 100 Heap.withGlobalScope
    none (by simp) outcome hrun hquiet
  exact ⟨outcome, other, hrun, hquiet, hfailed, hother, hsame⟩

end StackScript
