import StackScript.Proofs.Machine.Reach
import StackScript.Proofs.Value.Functions

set_option autoImplicit false

/-!
# Where things come from

What an instruction leaves behind, and where each part of it comes from: the places of the slots and
of the reports, the functions in the values, the code that runs next. Whatever holds of all code
that can come to run, or of all values in reach, is shown from `Derives` for each step.
-/
namespace StackScript.Machine

variable {limits : Limits} {m : Machine} {instruction : Instruction}

/-- The place of the instruction or of a value on the stack. -/
def Marks (m : Machine) (instruction : Instruction) (origin : Span) : Prop :=
  origin = instruction.origin ∨ ∃ slot ∈ m.active.stack, origin = slot.origin

/-- The functions in the value are from the stack, from the operand or from a variable. -/
def Knows (m : Machine) (instruction : Instruction) (value : Value) : Prop :=
  ∀ P : FunctionRef → Prop, (∀ slot ∈ m.active.stack, slot.value.All P) →
    (∀ constant, instruction.operand = some (.value constant) → constant.All P) →
    (∀ name, (m.heap.lookup m.active.scope name).All P) → value.All P

structure Supplies (m : Machine) (instruction : Instruction) (slot : Slot) : Prop where
  origin : m.Marks instruction slot.origin
  value : m.Knows instruction slot.value

/-- A fault that an instruction itself can report. A jump fails only if it leads nowhere. -/
structure Blames (m : Machine) (instruction : Instruction) (fault : RunFault) : Prop where
  ne_stepLimit : fault.code ≠ .stepLimitExceeded
  ne_callDepth : fault.code ≠ .callDepthExceeded
  jump : fault.code = .invalidJumpTarget → instruction.opcode.isJump = true ∧
    ∀ target, instruction.target? = some target → m.active.code.length ≤ target

inductive Logs (m : Machine) (instruction : Instruction) : DiagnosticLog → Prop where
  | nothing : Logs m instruction m.log
  | fault {fault : RunFault} {origin : Span} (blames : m.Blames instruction fault)
      (marks : m.Marks instruction origin) :
      Logs m instruction (m.log.push (fault.diagnostic origin))

inductive Derives (limits : Limits) (m : Machine) (instruction : Instruction) : Progress → Prop where
  | goes {pointer : Nat} {stack : List Slot} {log : DiagnosticLog}
      (pointer_eq : pointer = m.active.pointer + 1 ∨ instruction.target? = some pointer)
      (slots : ∀ slot ∈ stack, m.Supplies instruction slot) (logs : m.Logs instruction log) :
      Derives limits m instruction
        (.running { m with active := { m.active with pointer, stack }, log })
  | stores {stack : List Slot} (name : String) {value : Value}
      (slots : ∀ slot ∈ stack, m.Supplies instruction slot) (known : m.Knows instruction value) :
      Derives limits m instruction
        (.running { m with
          heap := m.heap.assign m.active.scope name value
          active := { m.active with pointer := m.active.pointer + 1, stack } })
  | opens {stack : List Slot} (slots : ∀ slot ∈ stack, m.Supplies instruction slot) :
      Derives limits m instruction (m.setStack stack).beginScope
  | closes {stack : List Slot} {scope scopeDepth : Nat}
      (slots : ∀ slot ∈ stack, m.Supplies instruction slot)
      (enclosing : (m.heap.scope m.active.scope).enclosing = some scope)
      (scopeDepth_eq : m.active.scopeDepth = scopeDepth + 1) :
      Derives limits m instruction
        (.running { m with
          active := { m.active with pointer := m.active.pointer + 1, stack, scope, scopeDepth } })
  | makes {stack : List Slot} {name : String} {parameters : List String} {body : Code}
      (slots : ∀ slot ∈ stack, m.Supplies instruction slot)
      (operand : instruction.operand = some (.proc name parameters body)) :
      Derives limits m instruction
        ((m.setStack stack).makeClosure name parameters body instruction.origin)
  | builds {stack : List Slot} {entries : List (Code × Code)}
      (slots : ∀ slot ∈ stack, m.Supplies instruction slot)
      (operand : instruction.operand = some (.entries entries)) :
      Derives limits m instruction ((m.setStack stack).buildObject instruction.origin [] entries)
  | calls {callee : Slot} {stack : List Slot} {count : Nat} {names : List String}
      (slots : ∀ slot ∈ callee :: stack, m.Supplies instruction slot)
      (opcode : instruction.opcode = .call)
      (operand : instruction.operand = some (.call count names))
      (inside : m.active.pointer + 1 + count ≤ m.active.code.length) :
      Derives limits m instruction ((m.setStack stack).enter
        (.start ((m.active.code.drop (m.active.pointer + 1)).take count) m.active.scope
          m.active.depth)
        (.arguments callee names instruction.origin (m.active.pointer + 1 + count)))
  | ends {stack : List Slot} {log : DiagnosticLog} {given : Option Value}
      (slots : ∀ slot ∈ stack, m.Supplies instruction slot)
      (known : ∀ value, given = some value → m.Knows instruction value)
      (logs : m.Logs instruction log) :
      Derives limits m instruction
        (({ m with active := { m.active with stack }, log } : Machine).finish limits given)

theorem marks_instruction (m : Machine) (instruction : Instruction) :
    m.Marks instruction instruction.origin := .inl rfl

theorem marks_slot {slot : Slot} (h : slot ∈ m.active.stack) : m.Marks instruction slot.origin :=
  .inr ⟨slot, h, rfl⟩

theorem knows_slot {slot : Slot} (h : slot ∈ m.active.stack) : m.Knows instruction slot.value :=
  fun _ hstack _ _ => hstack slot h

theorem knows_of_all {value : Value} (h : ∀ P, value.All P) : m.Knows instruction value :=
  fun P _ _ _ => h P

theorem supplies_of_subset {stack : List Slot} (h : stack ⊆ m.active.stack) :
    ∀ slot ∈ stack, m.Supplies instruction slot :=
  fun _ hslot => ⟨marks_slot (h hslot), knows_slot (h hslot)⟩

theorem supplies_cons {origin : Span} {value : Value} {stack : List Slot}
    (marks : m.Marks instruction origin) (known : m.Knows instruction value)
    (h : stack ⊆ m.active.stack) :
    ∀ slot ∈ (⟨origin, value⟩ : Slot) :: stack, m.Supplies instruction slot := by
  intro slot hslot
  obtain rfl | hold := List.mem_cons.mp hslot
  · exact ⟨marks, known⟩
  · exact supplies_of_subset h slot hold

theorem blames_of_ne {fault : RunFault} (hsteps : fault.code ≠ .stepLimitExceeded)
    (hdepth : fault.code ≠ .callDepthExceeded) (hjump : fault.code ≠ .invalidJumpTarget) :
    m.Blames instruction fault :=
  ⟨hsteps, hdepth, fun h => absurd h hjump⟩

-- Each is followed from a state in which some slots have been taken from the stack already.
section Taken

variable {stack : List Slot} (hstack : stack ⊆ m.active.stack)

include hstack

theorem derives_fail {fault : RunFault} (blames : m.Blames instruction fault) :
    Derives limits m instruction ((m.setStack stack).fail limits fault instruction.origin) :=
  .ends (supplies_of_subset hstack) (by simp) (.fault blames (m.marks_instruction _))

theorem derives_push {value : Value} {origin : Span} (known : m.Knows instruction value)
    (marks : m.Marks instruction origin) :
    Derives limits m instruction ((m.setStack stack).push value origin).next :=
  .goes (.inl rfl) (supplies_cons marks known hstack) .nothing

theorem derives_report {fault : RunFault} {origin : Span} (blames : m.Blames instruction fault)
    (marks : m.Marks instruction origin) :
    Derives limits m instruction ((m.setStack stack).report fault origin).next :=
  .goes (.inl rfl) (supplies_of_subset hstack) (.fault blames marks)

theorem derives_result {result : Except CoercionError Value} {origin failed : Span}
    (marks : m.Marks instruction origin) (marksFailed : m.Marks instruction failed) :
    (∀ value, result = .ok value → ∀ P, value.All P) →
    Derives limits m instruction (match result with
      | .ok value => ((m.setStack stack).push value origin).next
      | .error error => ((m.setStack stack).report (.coercion error) failed).next) := by
  intro hvalue
  cases result with
  | ok value => exact derives_push hstack (knows_of_all (hvalue value rfl)) marks
  | error error =>
    exact derives_report hstack (blames_of_ne (by nofun) (by nofun) (by nofun)) marksFailed

theorem derives_pop_taken {go : Slot → Machine → Progress}
    (hgo : ∀ slot rest, stack = slot :: rest →
      Derives limits m instruction (go slot (m.setStack rest))) :
    Derives limits m instruction ((m.setStack stack).pop limits instruction.origin go) := by
  unfold pop
  split
  · rename_i slot rest hrest
    exact hgo slot rest hrest
  · exact derives_fail hstack (blames_of_ne (by nofun) (by nofun) (by nofun))

end Taken

theorem derives_pop {go : Slot → Machine → Progress}
    (hgo : ∀ slot stack, slot ∈ m.active.stack → stack ⊆ m.active.stack →
      Derives limits m instruction (go slot (m.setStack stack))) :
    Derives limits m instruction (m.pop limits instruction.origin go) := by
  refine derives_pop_taken (List.Subset.refl m.active.stack) fun slot stack hstack => ?_
  exact hgo slot stack (hstack ▸ List.mem_cons_self) (hstack ▸ List.subset_cons_self slot stack)

theorem derives_popTwo {go : Slot → Slot → Machine → Progress}
    (hgo : ∀ top below stack, top ∈ m.active.stack → below ∈ m.active.stack →
      stack ⊆ m.active.stack → Derives limits m instruction (go top below (m.setStack stack))) :
    Derives limits m instruction (m.popTwo limits instruction.origin go) := by
  refine derives_pop fun top rest htop hrest => derives_pop_taken hrest fun below stack hstack => ?_
  subst hstack
  exact hgo top below stack htop (hrest List.mem_cons_self) (List.subset_of_cons_subset hrest)

theorem derives_withTarget {go : Nat → Progress} (hjump : instruction.opcode.isJump = true)
    (hgo : ∀ target, instruction.target? = some target → Derives limits m instruction (go target)) :
    Derives limits m instruction (m.withTarget limits instruction go) := by
  unfold withTarget
  split
  · rename_i target htarget
    split
    · exact hgo target htarget
    · rename_i houtside
      refine derives_fail (List.Subset.refl m.active.stack) ⟨by nofun, by nofun, fun _ => ?_⟩
      refine ⟨hjump, fun other hother => ?_⟩
      rw [htarget] at hother
      obtain rfl := Option.some.inj hother
      exact Nat.not_lt.mp houtside
  · rename_i hnone
    refine derives_fail (List.Subset.refl m.active.stack) ⟨by nofun, by nofun, fun _ => ?_⟩
    exact ⟨hjump, fun target htarget => by simp [hnone] at htarget⟩

theorem derives_jumpIf (hjump : instruction.opcode.isJump = true) (wanted : Bool) :
    Derives limits m instruction (m.jumpIf limits instruction wanted) := by
  refine derives_withTarget hjump fun target htarget =>
    derives_pop fun condition stack hcondition hstack => ?_
  split
  · split
    · exact .goes (.inr htarget) (supplies_of_subset hstack) .nothing
    · exact .goes (.inl rfl) (supplies_of_subset hstack) .nothing
  · exact derives_report hstack (blames_of_ne (by nofun) (by nofun) (by nofun))
      (marks_slot hcondition)

theorem derives_loadName : Derives limits m instruction (m.loadName limits instruction.origin) := by
  refine derives_pop fun slot stack hslot hstack => ?_
  split
  · exact derives_push hstack (fun P _ _ hvariable => hvariable _) (m.marks_instruction _)
  · exact derives_report hstack (blames_of_ne (by nofun) (by nofun) (by nofun)) (marks_slot hslot)

theorem derives_store (keep : Bool) :
    Derives limits m instruction (m.store limits keep instruction.origin) := by
  refine derives_popTwo fun stored slot stack hstored hslot hstack => ?_
  split
  · rename_i name _
    cases keep with
    | true =>
      have hknown : m.Knows instruction stored.value := knows_slot hstored
      exact .stores name (supplies_cons (m.marks_instruction _) hknown hstack) hknown
    | false => exact .stores name (supplies_of_subset hstack) (knows_slot hstored)
  · exact derives_report hstack (blames_of_ne (by nofun) (by nofun) (by nofun)) (marks_slot hslot)

theorem derives_index : Derives limits m instruction (m.index limits instruction.origin) := by
  refine derives_popTwo fun key target stack hkey htarget hstack => ?_
  split
  · rename_i entries hentries
    refine derives_push hstack (fun P hslots _ _ => ?_) (m.marks_instruction _)
    have hobject := hslots target htarget
    rw [hentries] at hobject
    exact hobject.get? key.value
  · exact derives_report hstack (blames_of_ne (by nofun) (by nofun) (by nofun)) (marks_slot htarget)

theorem derives_endScope : Derives limits m instruction (m.endScope instruction.origin) := by
  unfold endScope
  split
  · rename_i enclosing scopeDepth_eq
    exact .closes (supplies_of_subset (List.Subset.refl _)) enclosing scopeDepth_eq
  · exact derives_report (List.Subset.refl m.active.stack)
      (blames_of_ne (by nofun) (by nofun) (by nofun)) (m.marks_instruction _)

theorem derives_call {count : Nat} {names : List String} (opcode : instruction.opcode = .call)
    (operand : instruction.operand = some (.call count names)) :
    Derives limits m instruction (m.call limits count names instruction.origin) := by
  refine derives_pop fun callee stack hcallee hstack => ?_
  dsimp only
  split
  · rename_i inside
    exact .calls (supplies_cons (marks_slot hcallee) (knows_slot hcallee) hstack) opcode operand
      inside
  · exact derives_fail hstack (blames_of_ne (by nofun) (by nofun) (by nofun))

theorem derives_giveBack : Derives limits m instruction (m.giveBack limits) := by
  unfold giveBack
  split
  · rename_i slot stack hstack
    refine .ends (supplies_of_subset (hstack ▸ List.subset_cons_self slot stack)) ?_ .nothing
    rintro _ ⟨⟩
    exact knows_slot (hstack ▸ List.mem_cons_self)
  · refine .ends (supplies_of_subset (List.Subset.refl _)) ?_ .nothing
    rintro _ ⟨⟩
    exact knows_of_all fun _ => .none

theorem derives_execute (limits : Limits) (m : Machine) (instruction : Instruction) :
    Derives limits m instruction (m.execute limits instruction) := by
  have hall := List.Subset.refl m.active.stack
  unfold execute
  dsimp only
  split
  case h_1 operand =>
    exact derives_push hall (fun _ _ hconstant _ => hconstant _ operand) (m.marks_instruction _)
  case h_2 => exact derives_push hall (knows_of_all fun _ => .none) (m.marks_instruction _)
  case h_3 operand => exact .builds (supplies_of_subset hall) operand
  case h_4 =>
    exact derives_pop fun _ _ _ hstack => .goes (.inl rfl) (supplies_of_subset hstack) .nothing
  case h_5 =>
    refine derives_popTwo fun top below stack htop hbelow hstack => ?_
    exact .goes (.inl rfl) (supplies_of_subset (List.cons_subset.mpr
      ⟨hbelow, List.cons_subset.mpr ⟨htop, hstack⟩⟩)) .nothing
  case h_6 =>
    refine derives_pop fun top stack htop hstack => ?_
    exact .goes (.inl rfl) (supplies_of_subset (List.cons_subset.mpr
      ⟨htop, List.cons_subset.mpr ⟨htop, hstack⟩⟩)) .nothing
  case h_7 => exact derives_loadName
  case h_8 => exact derives_store _
  case h_9 => exact derives_store _
  case h_10 => exact derives_index
  case h_11 => exact .opens (supplies_of_subset hall)
  case h_12 => exact derives_endScope
  case h_13 opcode =>
    exact derives_withTarget (by rw [opcode]; rfl) fun _ htarget =>
      .goes (.inr htarget) (supplies_of_subset hall) .nothing
  case h_14 opcode => exact derives_jumpIf (by rw [opcode]; rfl) _
  case h_15 opcode => exact derives_jumpIf (by rw [opcode]; rfl) _
  case h_16 opcode operand => exact derives_call opcode operand
  case h_17 operand => exact .makes (supplies_of_subset hall) operand
  case h_18 => exact derives_giveBack
  case h_19 => exact .ends (supplies_of_subset hall) (by simp) .nothing
  case h_20 => exact .goes (.inl rfl) (supplies_of_subset hall) .nothing
  case h_21 =>
    split
    · rename_i operation hoperation
      refine derives_popTwo fun right left stack hright _ hstack => ?_
      exact derives_result hstack (marks_slot hright) (m.marks_instruction _)
        fun _ hvalue _ => all_binary hoperation hvalue
    · rename_i operation _ hoperation
      refine derives_pop fun operand stack hoperand hstack => ?_
      exact derives_result hstack (m.marks_instruction _) (marks_slot hoperand)
        fun _ hvalue _ => all_unary hoperation hvalue
    · exact derives_fail hall (blames_of_ne (by nofun) (by nofun) (by nofun))

/-- What a step can come to: its instruction runs, or the activation ends without it, since there is
none or none may run any more. -/
inductive Advances (limits : Limits) (m : Machine) : Progress → Prop where
  | executes {instruction : Instruction} {steps : Nat} {progress : Progress}
      (code : m.active.code[m.active.pointer]? = some instruction)
      (derives : Derives limits { m with steps } instruction progress) : Advances limits m progress
  | stops {steps : Nat} : Advances limits m (({ m with steps } : Machine).finish limits none)
  | overruns {instruction : Instruction} {steps : Nat} (limit : Nat)
      (code : m.active.code[m.active.pointer]? = some instruction) :
      Advances limits m
        ((({ m with steps } : Machine).report (.outOfSteps limit) instruction.origin).finish limits
          none)

theorem advances_step (limits : Limits) (m : Machine) : Advances limits m (m.step limits) := by
  unfold step
  split
  · exact .stops
  · rename_i instruction code
    obtain ⟨steps, hcharge | hcharge | ⟨limit, hcharge⟩⟩ := charge_cases limits m instruction.origin
    · rw [hcharge]
      exact .executes code (derives_execute limits { m with steps } instruction)
    · rw [hcharge]
      exact .stops
    · rw [hcharge]
      exact .overruns limit code

end StackScript.Machine
