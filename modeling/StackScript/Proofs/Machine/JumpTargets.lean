import StackScript.Proofs.Machine.Effects
import StackScript.Proofs.Machine.Regime
import StackScript.Proofs.Machine.Writes

set_option autoImplicit false

/-!
# Jumps that were checked

The check of jump targets compares a jump with the length of the code it stands in. The machine runs
the arguments of a call as code of their own, with their own length, so a jump among them can pass
the check and still lead nowhere. All other jumps that pass the check are safe, and so are these if
they stay among their arguments.
-/
namespace StackScript

open Code (Lands)

/-- No function is among the constants. -/
def Code.Plain (code : Code) : Prop :=
  code.Everywhere fun instruction =>
    ∀ value, instruction.operand = some (.value value) → value.All fun _ => False

/-- Jumps among the arguments of a call lead to these arguments. -/
def Code.ArgumentsClosed (code : Code) : Prop :=
  ∀ part, code.Part part → ∀ pointer call count names, part[pointer]? = some call →
    call.opcode = .call → call.operand = some (.call count names) →
    pointer + 1 + count ≤ part.length →
    ∀ instruction ∈ (part.drop (pointer + 1)).take count, Lands count instruction

/-- Jumps have a target, and the code inside passes the check. -/
def Code.PartChecked (code : Code) : Prop :=
  ∀ instruction ∈ code,
    (instruction.opcode.isJump = true → ∃ target, instruction.target? = some target) ∧
    ∀ operand, instruction.operand = some operand →
      ∀ inner, operand.Holds inner → inner.badJumps = []

namespace Code

variable {code : Code} {instruction : Instruction} {pointer count : Nat}

theorem partChecked_of_badJumps (h : code.badJumps = []) : code.PartChecked := by
  intro instruction hmem
  obtain ⟨hlands, hinner⟩ := badJumps_eq_nil_iff.mp h instruction hmem
  refine ⟨fun hjump => ?_, hinner⟩
  obtain ⟨target, htarget, _⟩ := hlands hjump
  exact ⟨target, htarget⟩

theorem length_region (hinside : pointer + 1 + count ≤ code.length) :
    ((code.drop (pointer + 1)).take count).length = count := by
  rw [List.length_take, List.length_drop]
  omega

theorem ArgumentsClosed.inner (h : code.ArgumentsClosed) (hmem : instruction ∈ code)
    {operand : Operand} (hoperand : instruction.operand = some operand) {inner : Code}
    (hholds : operand.Holds inner) : inner.ArgumentsClosed :=
  fun part hpart => h part (.inner hmem hoperand hholds hpart)

theorem ArgumentsClosed.region (h : code.ArgumentsClosed) (pointer count : Nat) :
    Code.ArgumentsClosed ((code.drop (pointer + 1)).take count) := by
  -- The arguments of a call among the arguments of another are arguments in the code as well.
  intro part hpart
  cases hpart with
  | inner hmem operand_eq holds rest =>
    exact h part (.inner (region_subset code pointer count hmem) operand_eq holds rest)
  | self =>
    intro second call size names hcall hopcode hoperand hinside instruction hmem
    have hsize : second + 1 + size ≤ count ∧ pointer + 1 + (second + 1 + size) ≤ code.length := by
      rw [List.length_take, List.length_drop] at hinside
      omega
    have hsecond : code[pointer + 1 + second]? = some call := by
      rwa [List.getElem?_take_of_lt (by omega), List.getElem?_drop] at hcall
    have hregion : (((code.drop (pointer + 1)).take count).drop (second + 1)).take size =
        (code.drop (pointer + 1 + second + 1)).take size := by
      rw [List.drop_take, List.drop_drop, List.take_take, Nat.min_eq_left (by omega)]
      rfl
    rw [hregion] at hmem
    exact h code (.self code) (pointer + 1 + second) call size names hsecond hopcode hoperand
      (by omega) instruction hmem

theorem badJumps_region (hchecked : code.badJumps = []) (hclosed : code.ArgumentsClosed)
    {call : Instruction} {names : List String} (hcall : code[pointer]? = some call)
    (hopcode : call.opcode = .call) (hoperand : call.operand = some (.call count names))
    (hinside : pointer + 1 + count ≤ code.length) :
    Code.badJumps ((code.drop (pointer + 1)).take count) = [] := by
  refine badJumps_eq_nil_iff.mpr fun instruction hmem => ⟨?_, ?_⟩
  · rw [length_region hinside]
    exact hclosed code (.self code) pointer call count names hcall hopcode hoperand hinside
      instruction hmem
  · exact (badJumps_eq_nil_iff.mp hchecked instruction (region_subset code pointer count hmem)).2

end Code

/-- What the check promises of all code that runs. -/
def Heritage.checked : Heritage where
  part code := code.PartChecked ∧ code.Plain
  whole code := code.badJumps = [] ∧ code.Plain
  part_of_whole h := ⟨Code.partChecked_of_badJumps h.1, h.2⟩
  inner h hmem hoperand hholds :=
    ⟨(h.1 _ hmem).2 _ hoperand _ hholds, h.2.inner hmem hoperand hholds⟩
  arguments {code pointer _ count _} h _ _ _ _ :=
    ⟨fun instruction hmem => h.1 instruction (Code.region_subset code pointer count hmem),
      h.2.subset (Code.region_subset code pointer count)⟩

def Heritage.closed : Heritage where
  part code := code.badJumps = [] ∧ code.Plain ∧ code.ArgumentsClosed
  whole code := code.badJumps = [] ∧ code.Plain ∧ code.ArgumentsClosed
  part_of_whole h := h
  inner h hmem hoperand hholds :=
    ⟨(Code.badJumps_eq_nil_iff.mp h.1 _ hmem).2 _ hoperand _ hholds,
      h.2.1.inner hmem hoperand hholds, h.2.2.inner hmem hoperand hholds⟩
  arguments {code pointer _ count _} h hcall hopcode hoperand hinside :=
    ⟨Code.badJumps_region h.1 h.2.2 hcall hopcode hoperand hinside,
      h.2.1.subset (Code.region_subset code pointer count), h.2.2.region pointer count⟩

/-- Nothing is in reach but the chain of the scope, in which there is no function, and what the run
makes itself. -/
def Regime.secluded (c : Heritage) (plain : ∀ code, c.part code → code.Plain) (heap : Heap)
    (scope : Nat) : Regime where
  toHeritage := c
  place _ := True
  allows ref := heap.closures.size ≤ ref.id
  reach id := heap.Chain scope id ∨ heap.scopes.size ≤ id
  firstScope := heap.scopes.size
  first := heap.closures.size
  origin _ _ := trivial
  constant hpart hmem hoperand :=
    ((plain _ hpart).here hmem _ hoperand).mono fun _ hfalse => hfalse.elim
  allows_new _ href := href
  reach_new _ hid := .inr hid

section Secluded

variable {c : Heritage} {plain : ∀ code, c.part code → code.Plain} {heap : Heap} {scope : Nat}
  {limits : Limits} {code : Code} {m : Machine}

theorem Regime.heapOk_secluded (h : heap.FunctionFree scope) :
    (secluded c plain heap scope).HeapOk heap where
  firstScope_le := Nat.le_refl _
  first_le := Nat.le_refl _
  enclosing id outer hid houter := by
    obtain hold | hnew := hid
    · exact .inl (.outer hold houter)
    · have hempty : heap.scope id = {} := Heap.scope_of_size_le hnew
      simp [hempty] at houter
  bindings id x value hid hvalue := by
    obtain hold | hnew := hid
    · exact (h id hold x value hvalue).mono fun _ hfalse => hfalse.elim
    · have hnone : heap.binding? id x = none := Heap.binding?_of_size_le hnew x
      simp [hnone] at hvalue
  closures ref closure href hclosure := by
    have hnone : heap.closure? ref = none := Array.getElem?_eq_none href
    simp [hnone] at hclosure

theorem Machine.under_secluded (h : heap.FunctionFree scope) (hcode : c.whole code) {steps : Nat}
    (hreach : (Machine.load code scope heap steps).Reaches limits m) :
    m.Under (.secluded c plain heap scope) := by
  refine hreach.under_of_allows ⟨Regime.heapOk_secluded h, ?_, ?_, ?_⟩ fun ref href => href
  · exact Machine.runs_start hcode (Or.inl (.self scope)) 0 []
  · intro s below hsuffix
    simp [Machine.load] at hsuffix
  · simp [Machine.load, DiagnosticLog.toList]

end Secluded

def DiagnosticLog.NoJumps (log : DiagnosticLog) : Prop :=
  ∀ d ∈ log.toList, d.code ≠ .invalidJumpTarget

namespace Machine

variable {limits : Limits} {m : Machine}

/-- The machine stands at a jump that leads nowhere in the active code. -/
def JumpsOutside (m : Machine) : Prop :=
  ∃ instruction, m.active.code[m.active.pointer]? = some instruction ∧
    instruction.opcode.isJump = true ∧
    ∀ target, instruction.target? = some target → m.active.code.length ≤ target

/-- What was reported in addition, where it is of a jump, has the cause. -/
def JumpReports (before : DiagnosticLog) (cause : Prop) (after : DiagnosticLog) : Prop :=
  ∃ added, after.toList = before.toList ++ added ∧
    ∀ d ∈ added, d.code = .invalidJumpTarget → cause

theorem JumpReports.refl (log : DiagnosticLog) (cause : Prop) : JumpReports log cause log :=
  ⟨[], by simp, by simp⟩

theorem JumpReports.push (log : DiagnosticLog) {cause : Prop} {d : Diagnostic}
    (h : d.code = .invalidJumpTarget → cause) : JumpReports log cause (log.push d) :=
  ⟨[d], toList_push log d, by simpa using h⟩

theorem JumpReports.trans {before log after : DiagnosticLog} {cause : Prop}
    (h : JumpReports before cause log) (h' : JumpReports log cause after) :
    JumpReports before cause after := by
  obtain ⟨added, hadded, hcause⟩ := h
  obtain ⟨more, hmore, hcause'⟩ := h'
  refine ⟨added ++ more, by rw [hmore, hadded, List.append_assoc], fun d hd => ?_⟩
  obtain hold | hnew := List.mem_append.mp hd
  · exact hcause d hold
  · exact hcause' d hnew

theorem JumpReports.cause {before after : DiagnosticLog} {cause : Prop}
    (h : JumpReports before cause after) {added : List Diagnostic}
    (hadded : after.toList = before.toList ++ added) {d : Diagnostic} (hd : d ∈ added)
    (hcode : d.code = .invalidJumpTarget) : cause := by
  obtain ⟨reports, hreports, hcause⟩ := h
  obtain rfl : reports = added := List.append_cancel_left (hreports.symm.trans hadded)
  exact hcause d hd hcode

theorem JumpReports.noJumps {before after : DiagnosticLog} {cause : Prop}
    (h : JumpReports before cause after) (hbefore : before.NoJumps) (hcause : ¬ cause) :
    after.NoJumps := by
  obtain ⟨added, hadded, hreports⟩ := h
  intro d hd
  rw [hadded] at hd
  obtain hold | hnew := List.mem_append.mp hd
  · exact hbefore d hold
  · exact fun hcode => hcause (hreports d hnew hcode)

theorem jumpReports_invoke (m : Machine) (callee : Slot) (names : List String)
    (arguments : List Value) (origin : Span) (resume : Nat) (cause : Prop) :
    JumpReports m.log cause
      (m.invoke limits callee names arguments origin resume).machine.log := by
  unfold invoke
  split
  · split
    · exact .push m.log (by nofun)
    · split
      · exact .refl _ _
      · exact .refl _ _
  · exact .push m.log (by nofun)

theorem jumpReports_finish (m : Machine) (given : Option Value) (cause : Prop) :
    JumpReports m.log cause (m.finish limits given).machine.log := by
  unfold finish
  split
  · exact .refl _ _
  · rename_i caller suspended _
    let resumed : Machine := { m with active := caller.activation, suspended }
    dsimp only
    cases caller.awaited with
    | arguments callee names origin resume =>
      exact resumed.jumpReports_invoke callee names _ _ _ cause
    | result origin resume => exact .refl _ _
    | key origin built value rest => exact .refl _ _
    | value origin built key rest =>
      rw [log_buildObject]
      exact .refl _ _

theorem Logs.jumpReports {instruction : Instruction} {log : DiagnosticLog}
    (h : m.Logs instruction log) (hcode : m.active.code[m.active.pointer]? = some instruction) :
    JumpReports m.log m.JumpsOutside log := by
  cases h with
  | nothing => exact .refl _ _
  | fault blames _ => exact .push _ fun hjump => ⟨instruction, hcode, blames.jump hjump⟩

theorem jumpReports_step (limits : Limits) (m : Machine) :
    JumpReports m.log m.JumpsOutside (m.step limits).machine.log := by
  have hadvances := advances_step limits m
  generalize m.step limits = progress at hadvances
  cases hadvances with
  | stops => exact jumpReports_finish _ none _
  | overruns limit code =>
    exact (JumpReports.push m.log (by nofun)).trans (jumpReports_finish _ none _)
  | executes code derives =>
    cases derives with
    | goes _ _ logs => exact logs.jumpReports code
    | stores name _ _ => exact .refl _ _
    | opens _ => exact .refl _ _
    | closes _ _ _ => exact .refl _ _
    | makes _ _ => exact .refl _ _
    | builds _ _ =>
      rw [log_buildObject]
      exact .refl _ _
    | calls _ _ _ _ => exact .refl _ _
    | ends _ _ logs => exact (logs.jumpReports code).trans (jumpReports_finish _ _ _)

theorem Reaches.noJumps {n : Machine} (hreach : Reaches limits m n) (hm : m.log.NoJumps)
    (hinside : ∀ k, Reaches limits m k → ¬ k.JumpsOutside) : n.log.NoJumps := by
  induction hreach with
  | refl _ => exact hm
  | @next m next n hs _ ih =>
    have hnext := (jumpReports_step limits m).noJumps hm (hinside m (.refl m))
    rw [hs] at hnext
    exact ih hnext fun k hk => hinside k (.next hs hk)

end Machine

/-- In every run of code that passes the check, started where there are no functions, a jump is
reported only among the arguments of a call, if it leads out of them. If no jump leads out of its
arguments, no jump is reported at all, whatever the limits. -/
theorem checked_jumps_stay_inside (code : Code) (scope : Nat) (heap : Heap) (steps : Nat)
    (limits : Limits) (hchecked : code.badJumps = []) (hplain : code.Plain)
    (hscope : heap.FunctionFree scope) :
    let start := Machine.load code scope heap steps
    (∀ m, start.Reaches limits m → ∀ added,
      (m.step limits).machine.log.toList = m.log.toList ++ added →
      ∀ d ∈ added, d.code = .invalidJumpTarget → InArguments m.suspended ∧
        ∃ instruction target, m.active.code[m.active.pointer]? = some instruction ∧
          instruction.opcode.isJump = true ∧ instruction.target? = some target ∧
          m.active.code.length ≤ target) ∧
    (code.ArgumentsClosed →
      (∀ m, start.Reaches limits m → ∀ d ∈ m.log.toList, d.code ≠ .invalidJumpTarget) ∧
      ∀ fuel outcome, start.run limits fuel = some outcome →
        ∀ d ∈ outcome.machine.log.toList, d.code ≠ .invalidJumpTarget) := by
  intro start
  refine ⟨fun m hreach added hadded d hd hcode => ?_, fun hclosed => ?_⟩
  · have hunder : m.Under (.secluded .checked (fun _ h => h.2) heap scope) :=
      Machine.under_secluded hscope ⟨hchecked, hplain⟩ hreach
    obtain ⟨instruction, hinstruction, hjump, houtside⟩ :=
      (Machine.jumpReports_step limits m).cause hadded hd hcode
    have hmem : instruction ∈ m.active.code := List.mem_of_getElem? hinstruction
    obtain ⟨target, htarget⟩ := (hunder.active.part.1 instruction hmem).1 hjump
    refine ⟨?_, instruction, target, hinstruction, hjump, htarget, houtside target htarget⟩
    refine Classical.byContradiction fun hnot => ?_
    have hwhole := (hunder.active.whole hnot).1
    obtain ⟨other, hother, hlt⟩ :=
      (Code.badJumps_eq_nil_iff.mp hwhole instruction hmem).1 hjump
    exact absurd (houtside other hother) (Nat.not_le.mpr hlt)
  · have hstep : ∀ m, start.Reaches limits m → ¬ m.JumpsOutside := by
      rintro m hreach ⟨instruction, hinstruction, hjump, houtside⟩
      have hunder : m.Under (.secluded .closed (fun _ h => h.2.1) heap scope) :=
        Machine.under_secluded hscope ⟨hchecked, hplain, hclosed⟩ hreach
      obtain ⟨target, htarget, hlt⟩ := (Code.badJumps_eq_nil_iff.mp hunder.active.part.1 instruction
        (List.mem_of_getElem? hinstruction)).1 hjump
      exact absurd (houtside target htarget) (Nat.not_le.mpr hlt)
    have hstart : start.log.NoJumps := by simp [start, Machine.load, DiagnosticLog.NoJumps,
      DiagnosticLog.toList]
    refine ⟨fun m hreach => hreach.noJumps hstart hstep, fun fuel outcome hrun => ?_⟩
    obtain ⟨n, hreach, hend⟩ := Machine.reaches_of_run_eq_some hrun
    have hlast := (Machine.jumpReports_step limits n).noJumps (hreach.noJumps hstart hstep)
      (hstep n hreach)
    rwa [hend] at hlast

namespace Code

theorem argumentsClosed_of_flat {code : Code}
    (hcalls : ∀ instruction ∈ code, instruction.opcode ≠ .call)
    (hflat : ∀ instruction ∈ code, ∀ operand, instruction.operand = some operand →
      ∀ inner, ¬ operand.Holds inner) : code.ArgumentsClosed := by
  intro part hpart pointer call count names hcall hopcode
  cases hpart with
  | self => exact absurd hopcode (hcalls call (List.mem_of_getElem? hcall))
  | inner hmem operand_eq holds _ => exact absurd holds (hflat _ hmem _ operand_eq _)

end Code

def jumpyCall : Code :=
  let place : Span := ⟨0, 1⟩
  let body : Code := [.jump .jmp 2 place, .plain .giveBack place, .push (.string "a") place,
    .plain .load place, .plain .giveBack place]
  [.mk .proc (some (.proc "f" ["a"] body)) place, .mk .call (some (.call 3 [])) place,
    .push (.bool true) place, .jump .jnz 2 place, .push (.string "x") place, .plain .exit place]

theorem checked_jumps_stay_inside_of_jumpyCall :
    jumpyCall.badJumps = [] ∧ jumpyCall.Plain ∧ jumpyCall.ArgumentsClosed ∧
    ∃ outcome, (Machine.load jumpyCall 0 Heap.withGlobalScope).run {} 20 = some outcome ∧
      outcome.machine.log.NoJumps := by
  have hchecked : jumpyCall.badJumps = [] := by decide
  have hplain : jumpyCall.Plain := by
    simp [Code.Plain, jumpyCall, Code.everywhere_cons, Instruction.operand, Instruction.push,
      Instruction.jump, Instruction.plain, Value.All.bool, Value.All.string]
  have hclosed : jumpyCall.ArgumentsClosed := by
    intro part hpart
    cases hpart with
    | self =>
      intro pointer call count names hcall hopcode hoperand _
      by_cases hcaller : pointer = 1
      · subst hcaller
        cases hcall
        cases hoperand
        simp [jumpyCall, Code.Lands, Instruction.opcode, Instruction.target?, Instruction.push,
          Instruction.jump, Opcode.isJump]
      · obtain _ | _ | _ | _ | _ | _ | pointer := pointer <;> cases hcall <;> contradiction
    | @inner _ inner _ _ _ hmem operand_eq holds rest =>
      have hbody : inner.ArgumentsClosed := by
        simp only [jumpyCall, List.mem_cons, List.not_mem_nil, or_false] at hmem
        obtain rfl | rfl | rfl | rfl | rfl | rfl := hmem <;> cases operand_eq <;> cases holds
        refine Code.argumentsClosed_of_flat ?_ ?_
        · simp [Instruction.opcode, Instruction.push, Instruction.jump, Instruction.plain]
        · simp [Instruction.operand, Instruction.push, Instruction.jump, Instruction.plain]
      exact hbody part rest
  have hscope : Heap.withGlobalScope.FunctionFree 0 := by
    intro id _ x value hvalue
    simp [Heap.binding?_withGlobalScope] at hvalue
  obtain ⟨outcome, hrun⟩ := Option.isSome_iff_exists.mp
    (show ((Machine.load jumpyCall 0 Heap.withGlobalScope).run {} 20).isSome = true by decide +kernel)
  exact ⟨hchecked, hplain, hclosed, outcome, hrun,
    ((checked_jumps_stay_inside jumpyCall 0 Heap.withGlobalScope 0 {} hchecked hplain hscope).2
      hclosed).2 20 outcome hrun⟩

/-- The jump leads to the instruction behind the arguments, which is in the code but not among
them. -/
theorem jump_behind_arguments_passes_check :
    let place : Span := ⟨0, 0⟩
    let code : Code := [.mk .proc (some (.proc "f" [] [])) place,
      .mk .call (some (.call 1 [])) place, .jump .jmp 3 place, .plain .exit place]
    code.badJumps = [] ∧ code.Plain ∧ Heap.withGlobalScope.FunctionFree 0 ∧
    ∃ outcome, (Machine.load code 0 Heap.withGlobalScope).run {} 20 = some outcome ∧
      ∃ d ∈ outcome.machine.log.toList, d.code = .invalidJumpTarget := by
  intro place code
  have hrun : ((Machine.load code 0 Heap.withGlobalScope).run {} 20).any (fun outcome =>
      outcome.machine.log.toList.any fun d => d.code == .invalidJumpTarget) = true := by
    decide +kernel
  obtain ⟨outcome, hrun, hreported⟩ := (Option.any_eq_true _ _).mp hrun
  obtain ⟨d, hd, hcode⟩ := List.any_eq_true.mp hreported
  refine ⟨by decide, ?_, fun id _ x value hvalue => ?_, outcome, hrun, d, hd, by simpa using hcode⟩
  · simp [Code.Plain, code, Code.everywhere_cons, Instruction.operand, Instruction.jump,
      Instruction.plain]
  · simp [Heap.binding?_withGlobalScope] at hvalue

end StackScript
