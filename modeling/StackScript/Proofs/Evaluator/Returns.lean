import StackScript.Proofs.Evaluator.Programs

set_option autoImplicit false

/-!
# Where a value is given back

Only a statement that gives back a value ends a list of statements with one. When the evaluator
does that, the code stands at the instruction for it, in the activation that runs the statements.
-/
namespace StackScript.Direct

open Code (Placed)
open Generate
open Machine (Reaches)

variable {limits : Limits} {ctx : Context} {host : Host} {pointer : Nat}

/-- The activation gets to an instruction that gives back a value. -/
def Returns (limits : Limits) (host : Host) (m : Machine) : Prop :=
  ∃ n origin, Reaches limits m n ∧ n.suspended = host.suspended ∧
    n.active.code[n.active.pointer]? = some (.plain .giveBack origin)

def Gives (limits : Limits) (host : Host) (m : Machine) (flow : Flow) : Prop :=
  flow.given ≠ none → Returns limits host m

theorem Gives.of_given {m : Machine} {flow : Flow} (h : flow.given = none) :
    Gives limits host m flow := fun hgiven => absurd h hgiven

theorem Gives.of_reaches {m n : Machine} {flow : Flow} (hreach : Reaches limits m n)
    (h : Gives limits host n flow) : Gives limits host m flow := by
  intro hgiven
  obtain ⟨last, origin, htail, hlast⟩ := h hgiven
  exact ⟨last, origin, hreach.trans htail, hlast⟩

theorem Gives.andThen {m : Machine} {flow : Flow} {go : State → Flow} {middle : Nat}
    (h : Gives limits host m flow) (hfollows : Follows limits host middle m flow)
    (hgo : ∀ s, Gives limits host (host.machine middle s) (go s)) :
    Gives limits host m (flow.andThen go) := by
  cases flow with
  | next s => exact (hgo s).of_reaches hfollows
  | ended given s => exact h

def StatementGives (limits : Limits) (statement' : Statement) : Prop :=
  ∀ ⦃ctx : Context⦄ ⦃host : Host⦄ ⦃pointer : Nat⦄, Hosted limits ctx host →
    Placed host.code pointer (ofStatement ctx.bound pointer statement') →
    pointer + statementWidth ctx.bound statement' < host.code.length → ∀ s,
    Gives limits host (host.machine pointer s) (statement ctx pointer statement' s)

def BlockGives (limits : Limits) (body : List Statement) : Prop :=
  ∀ ⦃ctx : Context⦄ ⦃host : Host⦄ ⦃pointer : Nat⦄, Hosted limits ctx host →
    Placed host.code pointer (ofStatements ctx.bound pointer body) →
    pointer + statementsWidth ctx.bound body < host.code.length → ∀ s,
    Gives limits host (host.machine pointer s) (statements ctx pointer body s)

section

variable (hfree : limits.stepLimit = none)
include hfree

theorem gives_block (node : Node) {body : List Statement} (hbody : BlockGives limits body) :
    StatementGives limits (.block node body) := by
  intro ctx host pointer hhost hcode hroom s
  simp only [statementWidth] at hroom
  simp only [statement, ← hhost.scope]
  have hbegin : Reaches limits (host.machine pointer s)
      ({ host with
        scope := (s.world.inner host.scope).2
        scopeDepth := host.scopeDepth + 1 }.machine (pointer + 1)
          { s with world := (s.world.inner host.scope).1 }) :=
    reaches_execute hfree hcode rfl
  have hinner := hbody (hhost.inner (s.world.inner host.scope).2 (host.scopeDepth + 1))
    hcode.tail.left (by dsimp only; omega) { s with world := (s.world.inner host.scope).1 }
  exact Gives.of_reaches hbegin hinner

theorem gives_giveBack (node : Node) (value : Option Expression) :
    StatementGives limits (.giveBack node value) := by
  intro ctx host pointer hhost hcode _ s
  have hend := hcode.right
  rw [length_ofOptional] at hend
  refine Gives.andThen (.of_given (given_optional ctx pointer value node.span s))
    (follows_optional hfree hhost hcode s) fun s _ => ?_
  exact ⟨_, node.span, .refl _, rfl, hend.getElem?⟩

theorem reaches_jumpIf {origin : Span} {target : Nat} {rest : Code}
    (hcode : Placed host.code pointer (.jump .jnz target origin :: rest))
    (htarget : target < host.code.length) (slot : Slot) (stack : List Slot) (world : World) :
    Reaches limits (host.machine pointer ⟨slot :: stack, world⟩)
      (match slot.value.toBool with
        | .ok true => host.machine target ⟨stack, world⟩
        | .ok false => host.machine (pointer + 1) ⟨stack, world⟩
        | .error error =>
          host.machine (pointer + 1) (State.report ⟨stack, world⟩ (.coercion error) slot.origin)) := by
  refine reaches_execute hfree hcode ?_
  change Machine.jumpIf limits _ (.jump .jnz target origin) true = _
  simp only [Machine.jumpIf, Machine.withTarget, Instruction.jump, Instruction.target?, Machine.pop,
    Host.machine, Host.activation, htarget, ↓reduceIte]
  cases slot.value.toBool with
  | ok truth => cases truth <;> rfl
  | error error => rfl

theorem gives_jumpIf {origin : Span} {target : Nat} {rest : Code} {taken other : State → Flow}
    (hcode : Placed host.code pointer (.jump .jnz target origin :: rest))
    (htarget : target < host.code.length)
    (htaken : ∀ s, Gives limits host (host.machine target s) (taken s))
    (hother : ∀ s, Gives limits host (host.machine (pointer + 1) s) (other s)) (s : State) :
    Gives limits host (host.machine pointer s)
      (pop pointer origin s fun slot s =>
        match slot.value.toBool with
        | .ok true => taken s
        | .ok false => other s
        | .error error => other (s.report (.coercion error) slot.origin)) := by
  obtain ⟨stack, world⟩ := s
  cases stack with
  | nil => exact .of_given rfl
  | cons slot stack =>
    refine Gives.of_reaches (reaches_jumpIf hfree hcode htarget slot stack world) ?_
    simp only [pop]
    split
    · exact htaken _
    · exact hother _
    · exact hother _

theorem gives_branch {condition : Expression} {body : Statement} {other : Code} {start stop : Nat}
    {origin : Span} {orElse : State → Flow} (hhost : Hosted limits ctx host)
    (hbody : StatementGives limits body)
    (hstart : start = pointer + width ctx.bound condition + 1 + other.length + 1)
    (hcode : Placed host.code pointer (ofExpression ctx.bound condition ++
      .jump .jnz start origin :: other ++ .jump .jmp stop origin :: ofStatement ctx.bound start body))
    (hroom : start + statementWidth ctx.bound body < host.code.length)
    (hother : Placed host.code (pointer + width ctx.bound condition + 1) other → ∀ s,
      Gives limits host (host.machine (pointer + width ctx.bound condition + 1) s) (orElse s))
    (s : State) :
    Gives limits host (host.machine pointer s)
      ((expression ctx pointer condition s).andThen fun s =>
        pop (pointer + width ctx.bound condition) origin s fun slot s =>
          match slot.value.toBool with
          | .ok true => statement ctx start body s
          | .ok false => orElse s
          | .error error => orElse (s.report (.coercion error) slot.origin)) := by
  rw [List.append_assoc] at hcode
  have hjump := hcode.right
  rw [length_ofExpression] at hjump
  have htaken := hjump.tail.right.tail
  rw [← hstart] at htaken
  refine Gives.andThen (.of_given (given_expression ctx condition pointer s))
    (simulated hfree condition hhost hcode.left s) fun s => ?_
  exact gives_jumpIf hfree hjump (by omega) (hbody hhost htaken hroom) (hother hjump.tail.left) s

theorem gives_branch_none (node : Node) (condition : Expression) {body : Statement}
    (hbody : StatementGives limits body) :
    StatementGives limits (.branch node condition body none) := by
  intro ctx host pointer hhost hcode hroom s
  simp only [ofStatement, length_ofExpression, List.length_nil, Nat.add_zero] at hcode
  simp only [statementWidth, ← Nat.add_assoc, Nat.add_zero] at hroom
  have hstart : pointer + width ctx.bound condition + 1 + 1 =
      pointer + width ctx.bound condition + 1 + ([] : Code).length + 1 := rfl
  exact gives_branch hfree hhost hbody hstart hcode hroom (fun _ _ => .of_given rfl) s

theorem gives_branch_some (node : Node) (condition : Expression) {body other : Statement}
    (hbody : StatementGives limits body) (hother : StatementGives limits other) :
    StatementGives limits (.branch node condition body (some other)) := by
  intro ctx host pointer hhost hcode hroom s
  simp only [ofStatement, length_ofExpression, length_ofStatement] at hcode
  simp only [statementWidth, ← Nat.add_assoc] at hroom
  have hstart : pointer + width ctx.bound condition + 1 + statementWidth ctx.bound other + 1 =
      pointer + width ctx.bound condition + 1 +
        (ofStatement ctx.bound (pointer + width ctx.bound condition + 1) other).length + 1 := by
    rw [length_ofStatement]
  exact gives_branch hfree hhost hbody hstart hcode hroom
    (fun hcode s => hother hhost hcode (by omega) s) s

theorem blockGives_cons {first : Statement} {rest : List Statement}
    (hfirst : StatementGives limits first) (hrest : BlockGives limits rest) :
    BlockGives limits (first :: rest) := by
  intro ctx host pointer hhost hcode hroom s
  simp only [ofStatements, length_ofStatement] at hcode
  simp only [statementsWidth, ← Nat.add_assoc] at hroom
  have htail := hcode.right
  rw [length_ofStatement] at htail
  exact Gives.andThen (hfirst hhost hcode.left (by omega) s)
    (statementSimulated hfree first hhost hcode.left (by omega) s) (hrest hhost htail hroom)

end

mutual

theorem statementGives (hfree : limits.stepLimit = none) :
    (st : Statement) → StatementGives limits st
  | .expression _ e => fun ctx _ pointer _ _ _ s => .of_given (given_expression ctx e pointer s)
  | .letDecl _ _ _ _ _ => fun _ _ _ _ _ _ _ =>
    .of_given (given_andThen (given_optional _ _ _ _ _) (given_store _ _ _ _))
  | .fnDecl _ _ _ _ _ => fun _ _ _ _ _ _ _ => .of_given rfl
  | .block node body => gives_block hfree node (blockGives hfree body)
  | .branch node condition body none =>
    gives_branch_none hfree node condition (statementGives hfree body)
  | .branch node condition body (some other) =>
    gives_branch_some hfree node condition (statementGives hfree body) (statementGives hfree other)
  | .giveBack node value => gives_giveBack hfree node value
  | .hole _ => fun _ _ _ _ _ _ _ => .of_given rfl
termination_by structural st => st

theorem blockGives (hfree : limits.stepLimit = none) : (body : List Statement) → BlockGives limits body
  | [] => fun _ _ _ _ _ _ _ => .of_given rfl
  | first :: rest => blockGives_cons hfree (statementGives hfree first) (blockGives hfree rest)
termination_by structural body => body

end

theorem gives_code (hfree : limits.stepLimit = none) (tree : SyntaxTree) (bound : BoundTree)
    (scope : Nat) (world : World) :
    Gives limits (Host.ofCode (tree.code bound) scope)
      ((Host.ofCode (tree.code bound) scope).machine 0 { world })
      (evaluate limits.maxCallDepth tree bound scope world) := by
  have hbodies : RunsBodies limits 0 (body? limits.maxCallDepth limits.maxCallDepth) :=
    runsBodies hfree (Nat.zero_add _)
  have hplaced := Code.placed_self (tree.code bound)
  refine blockGives hfree tree.statements ⟨rfl, rfl, hbodies⟩ hplaced.left ?_ { world }
  simp [Host.ofCode, SyntaxTree.code, length_ofStatements]

end StackScript.Direct
