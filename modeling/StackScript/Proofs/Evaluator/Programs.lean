import StackScript.Proofs.Evaluator.Simulation

set_option autoImplicit false

/-!
# Programs

Statements follow the evaluator as expressions do. Their code must not be the last of its stream,
since a branch jumps to the instruction after it.

Main statement: `run_code_agrees_with_evaluate`. A machine that runs the code of a program ends, and
with the value, the stack, the heap and the log that evaluating the tree gives.
-/
namespace StackScript.Direct

open Code (Placed)
open Generate
open Machine (Reaches)

variable {limits : Limits} {ctx : Context} {host : Host} {pointer stop : Nat} {s : State}

/-- The code of a statement does what evaluating it does, wherever it stands in front of other
code. -/
def StatementSimulated (limits : Limits) (statement' : Statement) : Prop :=
  ∀ ⦃ctx : Context⦄ ⦃host : Host⦄ ⦃pointer : Nat⦄, Hosted limits ctx host →
    Placed host.code pointer (ofStatement ctx.bound pointer statement') →
    pointer + statementWidth ctx.bound statement' < host.code.length → ∀ s,
    Follows limits host (pointer + statementWidth ctx.bound statement') (host.machine pointer s)
      (statement ctx pointer statement' s)

def BlockSimulated (limits : Limits) (body : List Statement) : Prop :=
  ∀ ⦃ctx : Context⦄ ⦃host : Host⦄ ⦃pointer : Nat⦄, Hosted limits ctx host →
    Placed host.code pointer (ofStatements ctx.bound pointer body) →
    pointer + statementsWidth ctx.bound body < host.code.length → ∀ s,
    Follows limits host (pointer + statementsWidth ctx.bound body) (host.machine pointer s)
      (statements ctx pointer body s)

theorem heap_declare (world : World) (routine : Routine) :
    world.heap.addClosure routine.closure =
      ({ world with routines := world.routines.push routine : World }.heap,
        ⟨world.routines.size, routine.name⟩) := by
  simp [Heap.addClosure, World.heap, Routine.closure]

theorem enclosing_inner (world : World) (outer : Nat) {later : Heap}
    (h : (world.inner outer).1.heap.Grows later) :
    (later.scope (world.inner outer).2).enclosing = some outer := by
  have hlt : (world.inner outer).2 < (world.inner outer).1.heap.scopes.size := by
    simp [World.inner, World.heap, Heap.addScope]
  have hnew := congrArg Scope.enclosing (Heap.scope_addScope_new world.scopes (some outer))
  rw [h.enclosing _ hlt]
  exact hnew

section

variable {body : List Statement} (hfree : limits.stepLimit = none)
include hfree

theorem follows_optional {value : Option Expression} {origin : Span} {rest : Code}
    (hhost : Hosted limits ctx host)
    (hcode : Placed host.code pointer (ofOptional ctx.bound value origin ++ rest)) (s : State) :
    Follows limits host (pointer + optionalWidth ctx.bound value) (host.machine pointer s)
      (optional ctx pointer value origin s) := by
  cases value with
  | none => exact reaches_pushNone hfree hcode
  | some e => exact simulated hfree e hhost hcode.left s

theorem simulated_letDecl (node : Node) (isMutable : Bool) (name : Name) (type : Option TypeRef)
    (initial : Option Expression) :
    StatementSimulated limits (.letDecl node isMutable name type initial) := by
  intro ctx host pointer hhost hcode _ s
  have hstore := hcode.tail.right
  rw [length_ofOptional] at hstore
  simp only [statement, statementWidth, ← Nat.add_assoc, ← hhost.scope]
  refine Follows.of_reaches (reaches_push hfree hcode) ?_
  exact (follows_optional hfree hhost hcode.tail _).andThen fun s => follows_store hfree hstore

theorem simulated_fnDecl (node : Node) (name : Name) (parameters : List Parameter)
    (result : Option TypeRef) (body : List Statement) :
    StatementSimulated limits (.fnDecl node name parameters result body) := by
  intro ctx host pointer hhost hcode _ s
  let routine : Routine :=
    ⟨name.text, parameters.map (·.name.text), body, ctx.bound, node.span, host.scope⟩
  let named := s.push (.string name.text) name.span
  let declared := State.push { named with world.routines := s.world.routines.push routine }
    (.function ⟨s.world.routines.size, name.text⟩) node.span
  have hname : Reaches limits (host.machine pointer s) (host.machine (pointer + 1) named) :=
    reaches_push hfree hcode
  have hproc : Reaches limits (host.machine (pointer + 1) named)
      (host.machine (pointer + 2) declared) := by
    refine reaches_execute hfree hcode.tail ?_
    change (Machine.push { host.machine (pointer + 1) named with
      heap := (s.world.heap.addClosure routine.closure).1 }
      (.function (s.world.heap.addClosure routine.closure).2) node.span).next = _
    rw [heap_declare]
    rfl
  rw [statement, ← hhost.scope]
  exact (follows_store hfree hcode.tail.tail).of_reaches (hname.trans hproc)

theorem simulated_block (node : Node) (hbody : BlockSimulated limits body) :
    StatementSimulated limits (.block node body) := by
  intro ctx host pointer hhost hcode hroom s
  simp only [statementWidth] at hroom
  simp only [statement, statementWidth, ← Nat.add_assoc, ← hhost.scope]
  have hbegin : Reaches limits (host.machine pointer s)
      ({ host with
        scope := (s.world.inner host.scope).2
        scopeDepth := host.scopeDepth + 1 }.machine (pointer + 1)
          { s with world := (s.world.inner host.scope).1 }) :=
    reaches_execute hfree hcode rfl
  have hrun := hbody (hhost.inner (s.world.inner host.scope).2 (host.scopeDepth + 1))
    hcode.tail.left (by dsimp only; omega) { s with world := (s.world.inner host.scope).1 }
  have hexit := hcode.tail.right
  rw [length_ofStatements] at hexit
  refine Follows.of_reaches hbegin ?_
  generalize statements _ _ _ _ = flow at hrun ⊢
  cases flow with
  | next t =>
    have henclosing : (t.world.heap.scope (s.world.inner host.scope).2).enclosing =
        some host.scope := enclosing_inner s.world host.scope (Reaches.grows hrun)
    refine Reaches.trans hrun (reaches_execute hfree hexit ?_)
    change Machine.endScope _ node.span = _
    simp only [Machine.endScope, Host.machine, Host.activation, henclosing]
    rfl
  | ended given t => exact hrun

theorem simulated_giveBack (node : Node) (value : Option Expression) :
    StatementSimulated limits (.giveBack node value) := by
  intro ctx host pointer hhost hcode _ s
  have hend := hcode.right
  rw [length_ofOptional] at hend
  simp only [statement, statementWidth, ← Nat.add_assoc]
  refine (follows_optional hfree hhost hcode s).andThen fun s => ?_
  refine follows_execute hfree hend ?_
  obtain ⟨stack, world⟩ := s
  cases stack with
  | nil => exact ⟨_, rfl⟩
  | cons slot stack => exact ⟨_, rfl⟩

theorem reaches_jump {origin : Span} {target : Nat} {rest : Code}
    (hcode : Placed host.code pointer (.jump .jmp target origin :: rest))
    (htarget : target < host.code.length) :
    Reaches limits (host.machine pointer s) (host.machine target s) := by
  have hjump : (host.machine pointer s).execute limits (.jump .jmp target origin) =
      .running (host.machine target s) := if_pos htarget
  exact reaches_execute hfree hcode hjump

theorem follows_jumpIf {origin : Span} {target : Nat} {rest : Code} {taken other : State → Flow}
    (hcode : Placed host.code pointer (.jump .jnz target origin :: rest))
    (htarget : target < host.code.length)
    (htaken : ∀ s, Follows limits host stop (host.machine target s) (taken s))
    (hother : ∀ s, Follows limits host stop (host.machine (pointer + 1) s) (other s)) (s : State) :
    Follows limits host stop (host.machine pointer s)
      (pop pointer origin s fun slot s =>
        match slot.value.toBool with
        | .ok true => taken s
        | .ok false => other s
        | .error error => other (s.report (.coercion error) slot.origin)) := by
  -- A conditional jump takes the condition off the stack. A condition that is no truth value is
  -- reported and does not jump.
  have hstep : (host.machine pointer s).step limits =
      (host.machine pointer s).execute limits (.jump .jnz target origin) :=
    Machine.step_eq_execute hfree hcode.getElem?
  have hinside : target < (host.machine pointer s).active.code.length := htarget
  change _ = (host.machine pointer s).jumpIf limits (.jump .jnz target origin) true at hstep
  simp only [Machine.jumpIf, Machine.withTarget, Instruction.jump, Instruction.target?, hinside,
    if_true, Instruction.origin] at hstep
  obtain ⟨stack, world⟩ := s
  cases stack with
  | nil => exact ⟨_, host.scope, host.scopeDepth, pointer, .refl _, hstep⟩
  | cons slot stack =>
    simp only [Machine.pop, Host.machine, Host.activation] at hstep
    simp only [pop]
    cases hbool : slot.value.toBool with
    | ok truth =>
      simp only [hbool] at hstep
      cases truth with
      | true => exact (htaken ⟨stack, world⟩).of_reaches (.single hstep)
      | false => exact (hother ⟨stack, world⟩).of_reaches (.single hstep)
    | error error =>
      simp only [hbool] at hstep
      exact (hother (State.report ⟨stack, world⟩ (.coercion error) slot.origin)).of_reaches
        (.single hstep)

/-- The code of the other branch, if there is any, stands in front of that of the body and ends with
a jump over it. -/
theorem follows_branch {condition : Expression} {body : Statement} {other : Code} {start : Nat}
    {origin : Span} {orElse : State → Flow} (hhost : Hosted limits ctx host)
    (hbody : StatementSimulated limits body)
    (hstart : start = pointer + width ctx.bound condition + 1 + other.length + 1)
    (hcode : Placed host.code pointer (ofExpression ctx.bound condition ++
      .jump .jnz start origin :: other ++
        .jump .jmp (start + statementWidth ctx.bound body) origin ::
          ofStatement ctx.bound start body))
    (hroom : start + statementWidth ctx.bound body < host.code.length)
    (hother : Placed host.code (pointer + width ctx.bound condition + 1) other → ∀ s,
      Follows limits host (pointer + width ctx.bound condition + 1 + other.length)
        (host.machine (pointer + width ctx.bound condition + 1) s) (orElse s)) (s : State) :
    Follows limits host (start + statementWidth ctx.bound body) (host.machine pointer s)
      ((expression ctx pointer condition s).andThen fun s =>
        pop (pointer + width ctx.bound condition) origin s fun slot s =>
          match slot.value.toBool with
          | .ok true => statement ctx start body s
          | .ok false => orElse s
          | .error error => orElse (s.report (.coercion error) slot.origin)) := by
  rw [List.append_assoc] at hcode
  refine (simulated hfree condition).andThen hhost hcode (fun hcode => ?_) s
  have hjump := hcode.tail.right
  have htaken := hjump.tail
  rw [← hstart] at htaken
  refine follows_jumpIf hfree hcode (by omega) (hbody hhost htaken hroom) fun s => ?_
  exact (hother hcode.tail.left s).then_reaches fun s => reaches_jump hfree hjump hroom

theorem simulated_branch_none (node : Node) (condition : Expression) {body : Statement}
    (hbody : StatementSimulated limits body) :
    StatementSimulated limits (.branch node condition body none) := by
  intro ctx host pointer hhost hcode hroom s
  simp only [ofStatement, length_ofExpression, length_ofStatement, List.length_nil,
    Nat.add_zero] at hcode
  simp only [statementWidth, ← Nat.add_assoc, Nat.add_zero] at hroom ⊢
  have hstart : pointer + width ctx.bound condition + 1 + 1 =
      pointer + width ctx.bound condition + 1 + ([] : Code).length + 1 := rfl
  refine follows_branch hfree hhost hbody hstart hcode hroom (fun _ s => ?_) s
  exact Reaches.refl _

theorem simulated_branch_some (node : Node) (condition : Expression) {body other : Statement}
    (hbody : StatementSimulated limits body) (hother : StatementSimulated limits other) :
    StatementSimulated limits (.branch node condition body (some other)) := by
  intro ctx host pointer hhost hcode hroom s
  simp only [ofStatement, length_ofExpression, length_ofStatement] at hcode
  simp only [statementWidth, ← Nat.add_assoc] at hroom ⊢
  have hstart : pointer + width ctx.bound condition + 1 + statementWidth ctx.bound other + 1 =
      pointer + width ctx.bound condition + 1 +
        (ofStatement ctx.bound (pointer + width ctx.bound condition + 1) other).length + 1 := by
    rw [length_ofStatement]
  refine follows_branch hfree hhost hbody hstart hcode hroom (fun hcode s => ?_) s
  rw [length_ofStatement]
  exact hother hhost hcode (by omega) s

end

theorem blockSimulated_cons {first : Statement} {rest : List Statement}
    (hfirst : StatementSimulated limits first) (hrest : BlockSimulated limits rest) :
    BlockSimulated limits (first :: rest) := by
  intro ctx host pointer hhost hcode hroom s
  simp only [ofStatements, length_ofStatement] at hcode
  simp only [statementsWidth, ← Nat.add_assoc] at hroom
  simp only [statements, statementsWidth, ← Nat.add_assoc]
  have htail := hcode.right
  rw [length_ofStatement] at htail
  exact (hfirst hhost hcode.left (by omega) s).andThen (hrest hhost htail hroom)

mutual

theorem statementSimulated (hfree : limits.stepLimit = none) :
    (st : Statement) → StatementSimulated limits st
  | .expression _ e => fun _ _ _ hhost hcode _ s => simulated hfree e hhost hcode s
  | .letDecl node isMutable name type initial =>
    simulated_letDecl hfree node isMutable name type initial
  | .fnDecl node name parameters result body =>
    simulated_fnDecl hfree node name parameters result body
  | .block node body => simulated_block hfree node (blockSimulated hfree body)
  | .branch node condition body none =>
    simulated_branch_none hfree node condition (statementSimulated hfree body)
  | .branch node condition body (some other) =>
    simulated_branch_some hfree node condition (statementSimulated hfree body)
      (statementSimulated hfree other)
  | .giveBack node value => simulated_giveBack hfree node value
  | .hole _ => fun _ _ _ _ hcode _ _ => reaches_noop hfree hcode
termination_by structural st => st

theorem blockSimulated (hfree : limits.stepLimit = none) :
    (body : List Statement) → BlockSimulated limits body
  | [] => fun _ _ _ _ _ _ _ => .refl _
  | first :: rest =>
    blockSimulated_cons (statementSimulated hfree first) (blockSimulated hfree rest)
termination_by structural body => body

end

theorem ends_statements {body : List Statement} {origin : Span} (hfree : limits.stepLimit = none)
    (hhost : Hosted limits ctx host)
    (hcode : host.code = ofStatements ctx.bound 0 body ++ [.plain .exit origin]) (s : State) :
    Ends limits host (host.machine 0 s) (statements ctx 0 body s).given
      (statements ctx 0 body s).state := by
  have hplaced : Placed host.code 0 (ofStatements ctx.bound 0 body ++ [.plain .exit origin]) :=
    hcode ▸ Code.placed_self host.code
  have hexit := hplaced.right
  rw [length_ofStatements] at hexit
  have hroom : 0 + statementsWidth ctx.bound body < host.code.length := by
    simp [hcode, length_ofStatements]
  exact (blockSimulated hfree body hhost hplaced.left hroom s).ends_of_exit hfree hexit

theorem runsBodies (hfree : limits.stepLimit = none) {depth budget : Nat}
    (h : depth + budget = limits.maxCallDepth) :
    RunsBodies limits depth (body? limits.maxCallDepth budget) := by
  induction budget generalizing depth with
  | zero => exact Nat.lt_succ_of_le (Nat.le_of_eq h.symm)
  | succ budget ih =>
    refine ⟨by omega, ?_⟩
    intro host pointer resume scope stack origin routine world hdepth
    have hbodies : RunsBodies limits (depth + 1) (body? limits.maxCallDepth budget) :=
      ih (by omega)
    have hhost : Hosted limits
        ⟨routine.bound, scope, limits.maxCallDepth, body? limits.maxCallDepth budget⟩
        (host.waiting pointer stack (.result origin resume) routine.code scope (depth + 1)) :=
      ⟨rfl, rfl, hbodies⟩
    have hends := ends_statements hfree hhost rfl { world }
    exact hends.reaches fun _ _ _ => ⟨_, rfl, .refl _⟩

def Host.ofCode (code : Code) (scope : Nat) : Host where
  code := code
  root := scope
  scope := scope
  scopeDepth := 0
  depth := 0
  suspended := []
  steps := 0

theorem Ends.run_eq_some {m : Machine} {given : Option Value} (h : Ends limits host m given s)
    (hlast : host.suspended = []) :
    ∃ fuel scope scopeDepth pointer, m.run limits fuel =
      some ⟨given.getD s.top, { host with scope, scopeDepth }.machine pointer s⟩ := by
  obtain ⟨n, scope, scopeDepth, pointer, hreach, hend⟩ := h
  have hfinish : ({ host with scope, scopeDepth }.machine pointer s).finish limits given =
      .finished ⟨given.getD s.top, { host with scope, scopeDepth }.machine pointer s⟩ := by
    simp only [Machine.finish, Host.machine, hlast]
    rfl
  obtain ⟨fuel, hrun⟩ := hreach.run_eq_some (hend.trans hfinish)
  exact ⟨fuel, scope, scopeDepth, pointer, hrun⟩

theorem ends_code (hfree : limits.stepLimit = none) (tree : SyntaxTree) (bound : BoundTree)
    (scope : Nat) (world : World) :
    Ends limits (Host.ofCode (tree.code bound) scope)
      ((Host.ofCode (tree.code bound) scope).machine 0 { world })
      (evaluate limits.maxCallDepth tree bound scope world).given
      (evaluate limits.maxCallDepth tree bound scope world).state := by
  have hbodies : RunsBodies limits 0 (body? limits.maxCallDepth limits.maxCallDepth) :=
    runsBodies hfree (Nat.zero_add _)
  have hhost : Hosted limits
      ⟨bound, scope, limits.maxCallDepth, body? limits.maxCallDepth limits.maxCallDepth⟩
      (Host.ofCode (tree.code bound) scope) := ⟨rfl, rfl, hbodies⟩
  exact ends_statements hfree hhost rfl { world }

/-- Running the code of a program is evaluating its tree, whatever binding recorded, wherever the
program runs and whichever functions exist already. -/
theorem run_code_agrees_with_evaluate (maxCallDepth : Nat) (tree : SyntaxTree) (bound : BoundTree)
    (scope : Nat) (scopes : Heap) (routines : Array Routine) :
    let world : World := { scopes, routines }
    let flow := evaluate maxCallDepth tree bound scope world
    ∃ fuel outcome,
      (Machine.load (tree.code bound) scope world.heap).run { maxCallDepth } fuel = some outcome ∧
      outcome.value = flow.value ∧
      outcome.machine.active.stack = flow.state.stack ∧
      outcome.machine.heap = flow.state.world.heap ∧
      outcome.machine.log = flow.state.world.log := by
  intro world flow
  have hfree : ({ maxCallDepth } : Limits).stepLimit = none := rfl
  have hends := ends_code hfree tree bound scope world
  obtain ⟨fuel, _, _, _, hrun⟩ := hends.run_eq_some rfl
  exact ⟨fuel, _, hrun, rfl, rfl, rfl, rfl⟩

end StackScript.Direct
