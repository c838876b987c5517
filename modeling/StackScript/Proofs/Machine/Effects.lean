import StackScript.Proofs.Machine.Growth
import StackScript.Proofs.Machine.Provenance

set_option autoImplicit false

/-!
# What an instruction can do

Each form that the machine can have after an instruction, said once. The values that are computed
are left open, so the forms are few: an instruction goes on in its activation, writes a variable,
opens or closes a scope, makes a function, lets other code run first, or ends the activation.
-/
namespace StackScript.Machine

variable {limits : Limits} {m : Machine} {instruction : Instruction}

/-- An instruction reports one fault or none. That the steps have run out is no fault of its own. -/
inductive Reported (log : DiagnosticLog) : DiagnosticLog → Prop where
  | nothing : Reported log log
  | fault {fault : RunFault} (h : fault.code ≠ .stepLimitExceeded) (origin : Span) :
      Reported log (log.push (fault.diagnostic origin))

inductive Effect (limits : Limits) (m : Machine) (instruction : Instruction) : Progress → Prop where
  | goes {pointer : Nat} {stack : List Slot} {log : DiagnosticLog}
      (pointer_eq : pointer = m.active.pointer + 1 ∨ instruction.target? = some pointer)
      (reported : Reported m.log log) :
      Effect limits m instruction
        (.running { m with active := { m.active with pointer, stack }, log })
  | stores {stack : List Slot} (name : String) (value : Value) :
      Effect limits m instruction
        (.running { m with
          heap := m.heap.assign m.active.scope name value
          active := { m.active with pointer := m.active.pointer + 1, stack } })
  | opens {stack : List Slot} : Effect limits m instruction (m.setStack stack).beginScope
  | closes {stack : List Slot} {scope scopeDepth : Nat}
      (enclosing : (m.heap.scope m.active.scope).enclosing = some scope)
      (scopeDepth_eq : m.active.scopeDepth = scopeDepth + 1) :
      Effect limits m instruction
        (.running { m with
          active := { m.active with pointer := m.active.pointer + 1, stack, scope, scopeDepth } })
  | makes {stack : List Slot} (name : String) (parameters : List String) (body : Code) :
      Effect limits m instruction
        ((m.setStack stack).makeClosure name parameters body instruction.origin)
  | builds {stack : List Slot} {entries : List (Code × Code)}
      (operand : instruction.operand = some (.entries entries)) :
      Effect limits m instruction ((m.setStack stack).buildObject instruction.origin [] entries)
  | calls {callee : Slot} {stack : List Slot} {count : Nat} {names : List String}
      (operand : instruction.operand = some (.call count names))
      (inside : m.active.pointer + 1 + count ≤ m.active.code.length) :
      Effect limits m instruction ((m.setStack stack).enter
        (.start ((m.active.code.drop (m.active.pointer + 1)).take count) m.active.scope
          m.active.depth)
        (.arguments callee names instruction.origin (m.active.pointer + 1 + count)))
  | ends {stack : List Slot} {log : DiagnosticLog} (given : Option Value)
      (reported : Reported m.log log) :
      Effect limits m instruction
        (({ m with active := { m.active with stack }, log } : Machine).finish limits given)

theorem log_le_report (m : Machine) (fault : RunFault) (origin : Span) :
    m.log.toList <+: (m.report fault origin).log.toList := by
  simp [report, DiagnosticLog.toList, DiagnosticLog.push]

theorem Reported.log_le {log later : DiagnosticLog} (h : Reported log later) :
    log.toList <+: later.toList := by
  cases h with
  | nothing => exact List.prefix_refl _
  | fault _ origin => simp [DiagnosticLog.toList, DiagnosticLog.push]

theorem Logs.reported {log : DiagnosticLog} (h : m.Logs instruction log) : Reported m.log log := by
  cases h with
  | nothing => exact .nothing
  | fault blames _ => exact .fault blames.ne_stepLimit _

theorem Derives.effect {progress : Progress} (h : Derives limits m instruction progress) :
    Effect limits m instruction progress := by
  cases h with
  | goes pointer_eq _ logs => exact .goes pointer_eq logs.reported
  | stores name _ _ => exact .stores name _
  | opens _ => exact .opens
  | closes _ enclosing scopeDepth_eq => exact .closes enclosing scopeDepth_eq
  | makes _ _ => exact .makes _ _ _
  | builds _ operand => exact .builds operand
  | calls _ _ operand inside => exact .calls operand inside
  | ends _ _ logs => exact .ends _ logs.reported

theorem effect_execute (limits : Limits) (m : Machine) (instruction : Instruction) :
    Effect limits m instruction (m.execute limits instruction) :=
  (derives_execute limits m instruction).effect

theorem log_buildObject (m : Machine) (origin : Span) (built : List (Value × Value))
    (entries : List (Code × Code)) : (m.buildObject origin built entries).machine.log = m.log := by
  cases entries <;> rfl

theorem log_le_invoke (m : Machine) (callee : Slot) (names : List String) (arguments : List Value)
    (origin : Span) (resume : Nat) :
    m.log.toList <+:
      (m.invoke limits callee names arguments origin resume).machine.log.toList := by
  unfold invoke
  split
  · split
    · exact m.log_le_report _ _
    · split
      · exact List.prefix_refl _
      · exact List.prefix_refl _
  · exact m.log_le_report _ _

theorem log_le_finish (m : Machine) (given : Option Value) :
    m.log.toList <+: (m.finish limits given).machine.log.toList := by
  unfold finish
  split
  · exact List.prefix_refl _
  · rename_i caller suspended _
    let resumed : Machine := { m with active := caller.activation, suspended }
    dsimp only
    cases caller.awaited with
    | arguments callee names origin resume => exact resumed.log_le_invoke callee names _ _ _
    | result origin resume => exact List.prefix_refl _
    | key origin built value rest => exact List.prefix_refl _
    | value origin built key rest => simp only [log_buildObject, List.prefix_refl]

theorem Effect.log_le {progress : Progress} (h : Effect limits m instruction progress) :
    m.log.toList <+: progress.machine.log.toList := by
  cases h with
  | goes _ reported => exact reported.log_le
  | stores name value => exact List.prefix_refl _
  | opens => exact List.prefix_refl _
  | closes _ _ => exact List.prefix_refl _
  | makes name parameters body => exact List.prefix_refl _
  | builds _ =>
    rw [log_buildObject]
    exact List.prefix_refl _
  | calls _ _ => exact List.prefix_refl _
  | @ends stack log given reported =>
    exact reported.log_le.trans (log_le_finish { m with active := { m.active with stack }, log } given)

theorem log_le_step (limits : Limits) (m : Machine) :
    m.log.toList <+: (m.step limits).machine.log.toList := by
  have hadvances := advances_step limits m
  generalize m.step limits = progress at hadvances
  cases hadvances with
  | executes _ derives => exact derives.effect.log_le
  | @stops steps => exact log_le_finish { m with steps } none
  | @overruns instruction steps limit _ =>
    have hreport := log_le_report { m with steps } (.outOfSteps limit) instruction.origin
    exact hreport.trans (log_le_finish _ none)

theorem Reaches.log_le {n : Machine} (h : Reaches limits m n) : m.log.toList <+: n.log.toList := by
  induction h with
  | refl _ => exact List.prefix_refl _
  | @next m n _ hs _ ih =>
    have hstep := log_le_step limits m
    rw [hs] at hstep
    exact hstep.trans ih

end StackScript.Machine
