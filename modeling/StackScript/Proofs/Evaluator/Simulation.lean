import StackScript.Proofs.Evaluator.Image
import StackScript.Proofs.Evaluator.Widths
import StackScript.Proofs.Machine.Growth

set_option autoImplicit false

/-!
# Generated code follows the evaluator

Without a limit on steps, the code of an expression or a statement takes the machine from the state
in which the evaluator starts to the one in which it stops, wherever the code stands. The evaluator
counts calls down from the limit while the machine counts them up, so function bodies come by
induction on the calls left.
-/
namespace StackScript.Direct

open Code (Placed)
open Generate
open Machine (Reaches)

variable {limits : Limits} {ctx : Context} {host : Host} {pointer stop : Nat} {s : State}

theorem follows_execute {instruction : Instruction} {rest : Code} {flow : Flow}
    (hfree : limits.stepLimit = none) (hcode : Placed host.code pointer (instruction :: rest))
    (h : Answers limits host stop ((host.machine pointer s).execute limits instruction) flow) :
    Follows limits host stop (host.machine pointer s) flow :=
  h.follows (Machine.step_eq_execute hfree hcode.getElem?)

theorem reaches_execute {instruction : Instruction} {rest : Code} {n : Machine}
    (hfree : limits.stepLimit = none) (hcode : Placed host.code pointer (instruction :: rest))
    (h : (host.machine pointer s).execute limits instruction = .running n) :
    Reaches limits (host.machine pointer s) n :=
  .single ((Machine.step_eq_execute hfree hcode.getElem?).trans h)

theorem reaches_push {value : Value} {origin : Span} {rest : Code}
    (hfree : limits.stepLimit = none)
    (hcode : Placed host.code pointer (.push value origin :: rest)) :
    Reaches limits (host.machine pointer s) (host.machine (pointer + 1) (s.push value origin)) :=
  reaches_execute hfree hcode rfl

theorem reaches_pushNone {origin : Span} {rest : Code} (hfree : limits.stepLimit = none)
    (hcode : Placed host.code pointer (.plain .pushNone origin :: rest)) :
    Reaches limits (host.machine pointer s) (host.machine (pointer + 1) (s.push .none origin)) :=
  reaches_execute hfree hcode rfl

theorem reaches_noop {origin : Span} {rest : Code} (hfree : limits.stepLimit = none)
    (hcode : Placed host.code pointer (.plain .noop origin :: rest)) :
    Reaches limits (host.machine pointer s) (host.machine (pointer + 1) s) :=
  reaches_execute hfree hcode rfl

theorem reaches_loadName {name : String} {origin : Span} {rest : Code}
    (hfree : limits.stepLimit = none)
    (hcode : Placed host.code pointer (loadName name origin ++ rest)) :
    Reaches limits (host.machine pointer s)
      (host.machine (pointer + 2) (s.push (s.lookup host.scope name) origin)) := by
  have hname : Reaches limits (host.machine pointer s)
      (host.machine (pointer + 1) (s.push (.string name) origin)) := reaches_push hfree hcode
  have hload : Reaches limits (host.machine (pointer + 1) (s.push (.string name) origin))
      (host.machine (pointer + 2) (s.push (s.world.heap.lookup host.scope name) origin)) :=
    reaches_execute hfree hcode.tail rfl
  rw [heap_lookup] at hload
  exact hname.trans hload

theorem follows_effect {opcode : Opcode} {effect : Effect} {origin : Span} {rest : Code}
    (hfree : limits.stepLimit = none) (heffect : Realises opcode effect)
    (hcode : Placed host.code pointer (.plain opcode origin :: rest)) :
    Follows limits host (pointer + 1) (host.machine pointer s)
      (effect.apply pointer origin s) := by
  refine follows_execute hfree hcode ?_
  cases effect with
  | unary f =>
    rw [Machine.execute_unary heffect.2]
    exact answers_unary f origin s
  | binary f =>
    rw [Machine.execute_binary heffect]
    exact answers_binary f origin s

theorem follows_effects {opcodes : List Opcode} {effects : List Effect} {origin : Span}
    {rest : Code} (hfree : limits.stepLimit = none) (heffects : List.Forall₂ Realises opcodes effects)
    (hcode : Placed host.code pointer (opcodes.map (.plain · origin) ++ rest)) :
    Follows limits host (pointer + effects.length) (host.machine pointer s)
      (applyAll pointer origin effects s) := by
  induction heffects generalizing pointer s with
  | nil => exact .refl _
  | @cons opcode effect opcodes effects heffect _ ih =>
    have hfirst := follows_effect hfree heffect hcode (s := s)
    have hrest := fun s => ih hcode.tail (s := s)
    rw [List.length_cons, Nat.add_comm effects.length, ← Nat.add_assoc]
    exact hfirst.andThen hrest

theorem follows_store {keep : Bool} {origin : Span} {rest : Code} (hfree : limits.stepLimit = none)
    (hcode : Placed host.code pointer (.store keep origin :: rest)) :
    Follows limits host (pointer + 1) (host.machine pointer s)
      (store host.scope keep pointer origin s) :=
  follows_execute hfree hcode (answers_store keep origin s)

theorem follows_index {origin : Span} {rest : Code} (hfree : limits.stepLimit = none)
    (hcode : Placed host.code pointer (.plain .index origin :: rest)) :
    Follows limits host (pointer + 1) (host.machine pointer s) (select pointer origin s) :=
  follows_execute hfree hcode (answers_select origin s)

theorem follows_stepOf {apply undo : Opcode} {change back : Effect} {operand : Expression}
    {origin : Span} (hfree : limits.stepLimit = none) (hchange : Realises apply change)
    (hback : Realises undo back)
    (hcode : Placed host.code pointer (Generate.stepOf operand origin apply undo)) :
    Follows limits host (pointer + stepWidth operand) (host.machine pointer s)
      (stepOf host.scope change back operand origin pointer s) := by
  cases operand with
  | name target name =>
    have hname := reaches_push hfree hcode (s := s)
    have hload := reaches_loadName hfree hcode.tail
      (s := s.push (.string name) target.span)
    have hrest := hcode.tail.tail.tail
    have hone := fun s => reaches_push hfree hrest (s := s)
    have happly := fun s => follows_effect hfree hchange hrest.tail (s := s)
    have hstore := fun s => follows_store hfree hrest.tail.tail (s := s)
    have hagain := fun s => reaches_push hfree hrest.tail.tail.tail (s := s)
    have hundo := fun s => follows_effect hfree hback hrest.tail.tail.tail.tail (s := s)
    refine ((happly _).of_reaches ((hname.trans hload).trans (hone _))).andThen fun s => ?_
    exact (hstore s).andThen fun s => (hundo _).of_reaches (hagain s)
  | _ => exact reaches_noop hfree hcode

def Leads (limits : Limits) (progress : Progress) (n : Machine) : Prop :=
  ∃ m, progress = .running m ∧ Reaches limits m n

theorem Ends.reaches {m n : Machine} {given : Option Value} (h : Ends limits host m given s)
    (hnext : ∀ scope scopeDepth pointer, Leads limits
      (({ host with scope, scopeDepth }.machine pointer s).finish limits given) n) :
    Reaches limits m n := by
  obtain ⟨last, scope, scopeDepth, pointer, hreach, hend⟩ := h
  obtain ⟨first, hfirst, htail⟩ := hnext scope scopeDepth pointer
  exact hreach.trans (.next (hend.trans hfirst) htail)

theorem Follows.ends_of_length_le {m : Machine} {flow : Flow}
    (h : Follows limits host stop m flow) (hstop : host.code.length ≤ stop) :
    Ends limits host m flow.given flow.state := by
  cases flow with
  | next s =>
    have hnone : host.code[stop]? = none := List.getElem?_eq_none hstop
    have hend : (host.machine stop s).step limits = (host.machine stop s).finish limits none := by
      simp only [Machine.step, Host.machine, Host.activation, hnone]
    exact ⟨_, host.scope, host.scopeDepth, stop, h, hend⟩
  | ended given s => exact h

theorem Follows.ends_of_exit {m : Machine} {flow : Flow} {origin : Span} {rest : Code}
    (hfree : limits.stepLimit = none) (h : Follows limits host stop m flow)
    (hcode : Placed host.code stop (.plain .exit origin :: rest)) :
    Ends limits host m flow.given flow.state := by
  cases flow with
  | next s =>
    have hexit : (host.machine stop s).step limits =
        (host.machine stop s).execute limits (.plain .exit origin) :=
      Machine.step_eq_execute hfree hcode.getElem?
    exact ⟨_, host.scope, host.scopeDepth, stop, h, hexit⟩
  | ended given s => exact h

/-- The host of code in a new activation, while `host` waits at `pointer` for it. -/
def Host.waiting (host : Host) (pointer : Nat) (stack : List Slot) (awaited : Awaited) (code : Code)
    (scope depth : Nat) : Host where
  code := code
  root := scope
  scope := scope
  scopeDepth := 0
  depth := depth
  suspended := ⟨host.activation pointer stack, awaited⟩ :: host.suspended
  steps := host.steps

/-- Calls from code that is `depth` calls deep do what `body?` says. -/
def RunsBodies (limits : Limits) (depth : Nat) :
    Option (Routine → Nat → World → Value × World) → Prop
  | none => limits.maxCallDepth < depth + 1
  | some body => depth + 1 ≤ limits.maxCallDepth ∧
    ∀ (host : Host) (pointer resume scope : Nat) (stack : List Slot) (origin : Span)
      (routine : Routine) (world : World), host.depth = depth →
      Reaches limits
        ((host.waiting pointer stack (.result origin resume) routine.code scope (depth + 1)).machine
          0 { world })
        (host.machine resume (State.push ⟨stack, (body routine scope world).2⟩
          (body routine scope world).1 origin))

/-- The machine runs under the conditions that the evaluator assumes. -/
structure Hosted (limits : Limits) (ctx : Context) (host : Host) : Prop where
  scope : host.scope = ctx.scope
  limit : ctx.maxCallDepth = limits.maxCallDepth
  bodies : RunsBodies limits host.depth ctx.body?

theorem Hosted.inner (h : Hosted limits ctx host) (scope scopeDepth : Nat) :
    Hosted limits { ctx with scope } { host with scope, scopeDepth } :=
  ⟨rfl, h.limit, h.bodies⟩

theorem Hosted.arguments (h : Hosted limits ctx host) (pointer : Nat) (stack : List Slot)
    (awaited : Awaited) (code : Code) :
    Hosted limits ctx (host.waiting pointer stack awaited code host.scope host.depth) :=
  ⟨h.scope, h.limit, h.bodies⟩

theorem Hosted.waiting (h : Hosted limits ctx host) (pointer : Nat) (stack : List Slot)
    (awaited : Awaited) (code : Code) (scope : Nat) :
    Hosted limits { ctx with scope } (host.waiting pointer stack awaited code scope host.depth) :=
  ⟨rfl, h.limit, h.bodies⟩

theorem leads_invoke (hhost : Hosted limits ctx host) (callee : Slot) (recorded : List String)
    (arguments : List Value) (origin : Span) (pointer resume : Nat) (s : State) :
    Leads limits
      ((host.machine pointer s).invoke limits callee recorded arguments origin resume)
      (host.machine resume (invoke ctx callee recorded arguments origin s)) := by
  have hbodies := hhost.bodies
  unfold Machine.invoke invoke
  cases hcallee : callee.value with
  | function ref =>
    cases hbody : ctx.body? with
    | none =>
      rw [hbody] at hbodies
      have hdeep : (host.machine pointer s).active.depth + 1 > limits.maxCallDepth := hbodies
      simp only [if_pos hdeep, hhost.limit]
      exact ⟨_, rfl, .refl _⟩
    | some body =>
      rw [hbody] at hbodies
      obtain ⟨hdepth, hrun⟩ := hbodies
      have hdeep : ¬ (host.machine pointer s).active.depth + 1 > limits.maxCallDepth :=
        Nat.not_lt.mpr hdepth
      have hclosure : (host.machine pointer s).heap.closure? ref =
          s.world.routines[ref.id]?.map Routine.closure := heap_closure s.world ref
      simp only [if_neg hdeep, hclosure]
      cases s.world.routines[ref.id]? with
      | none => exact ⟨_, rfl, .refl _⟩
      | some routine =>
        refine ⟨_, rfl, ?_⟩
        let names := if recorded.isEmpty then routine.parameters else recorded
        let inner := (s.world.inner routine.scope).1
        let locals := (s.world.inner routine.scope).2
        have hheap : inner.heap.defineAll locals names arguments = _ :=
          heap_defineAll inner locals names arguments
        have hcall := hrun host pointer resume locals s.stack origin routine
          { inner with scopes := inner.scopes.defineAll locals names arguments } rfl
        rw [Host.machine, ← hheap] at hcall
        exact hcall
  | _ => exact ⟨_, rfl, .refl _⟩

theorem leads_enterEntry {code : Code} {awaited : Awaited} {stack : List Slot} {world : World}
    {flow : Flow} {n : Machine}
    (hrun : Follows limits
      (host.waiting pointer stack awaited code (world.inner host.scope).2 host.depth) code.length
      ((host.waiting pointer stack awaited code (world.inner host.scope).2 host.depth).machine 0
        { world := (world.inner host.scope).1 }) flow)
    (hnext : ∀ root scope scopeDepth pointer', Leads limits
      (({ host.waiting pointer stack awaited code root host.depth with
        scope, scopeDepth }.machine pointer' flow.state).finish limits flow.given) n) :
    Leads limits ((host.machine pointer ⟨stack, world⟩).enterEntry code awaited) n :=
  ⟨_, rfl, (hrun.ends_of_length_le (Nat.le_refl _)).reaches (hnext _)⟩

theorem follows_call {arguments : Code} {recorded : List String} {origin : Span}
    (given : World → Flow) (hfree : limits.stepLimit = none) (hhost : Hosted limits ctx host)
    (hcode : Placed host.code pointer
      (.mk .call (some (.call arguments.length recorded)) origin :: arguments))
    (hrun : ∀ slot stack resume world, Follows limits
      (host.waiting pointer stack (.arguments slot recorded origin resume) arguments host.scope
        host.depth) arguments.length
      ((host.waiting pointer stack (.arguments slot recorded origin resume) arguments host.scope
        host.depth).machine 0 { world }) (given world)) :
    Follows limits host (pointer + 1 + arguments.length) (host.machine pointer s)
      (pop pointer origin s fun callee s =>
        .next (invoke ctx callee recorded ((given s.world).state.stack.reverse.map (·.value))
          origin { s with world := (given s.world).state.world })) := by
  obtain ⟨stack, world⟩ := s
  cases stack with
  | nil => exact follows_execute hfree hcode ⟨pointer, rfl⟩
  | cons slot stack =>
    have hcall : Reaches limits (host.machine pointer ⟨slot :: stack, world⟩)
        ((host.waiting pointer stack
          (.arguments slot recorded origin (pointer + 1 + arguments.length)) arguments host.scope
          host.depth).machine 0 { world }) := by
      refine reaches_execute hfree hcode ?_
      have hbound : pointer + 1 + arguments.length ≤ host.code.length := hcode.bound
      have htake : (host.code.drop (pointer + 1)).take arguments.length = arguments :=
        hcode.tail.take_drop
      simp only [Machine.execute, Instruction.opcode, Instruction.operand, Machine.call,
        Machine.pop, Host.machine, Host.activation, Machine.setStack, if_pos hbound, htake]
      rfl
    have hinvoke := leads_invoke hhost slot recorded
      ((given world).state.stack.reverse.map (·.value)) origin pointer
      (pointer + 1 + arguments.length) ⟨stack, (given world).state.world⟩
    have hends := (hrun slot stack (pointer + 1 + arguments.length) world).ends_of_length_le
      (Nat.le_refl _)
    exact hcall.trans (hends.reaches fun _ _ _ => hinvoke)

/-- The code of an expression does what evaluating it does, wherever it stands. -/
def Simulated (limits : Limits) (e : Expression) : Prop :=
  ∀ ⦃ctx : Context⦄ ⦃host : Host⦄ ⦃pointer : Nat⦄, Hosted limits ctx host →
    Placed host.code pointer (ofExpression ctx.bound e) → ∀ s,
    Follows limits host (pointer + width ctx.bound e) (host.machine pointer s)
      (expression ctx pointer e s)

def ListSimulated (limits : Limits) (es : List Expression) : Prop :=
  ∀ ⦃ctx : Context⦄ ⦃host : Host⦄ ⦃pointer : Nat⦄, Hosted limits ctx host →
    Placed host.code pointer (ofExpressions ctx.bound es) → ∀ s,
    Follows limits host (pointer + widths ctx.bound es) (host.machine pointer s)
      (expressions ctx pointer es s)

/-- `built` are the entries before these, the last first. -/
def EntriesSimulated (limits : Limits) (entries : List (Expression × Expression)) : Prop :=
  ∀ ⦃ctx : Context⦄ ⦃host : Host⦄, Hosted limits ctx host →
    ∀ (pointer : Nat) (stack : List Slot) (world : World) (origin : Span)
      (built : List (Value × Value)), Leads limits
      ((host.machine pointer ⟨stack, world⟩).buildObject origin built
        (ofProperties ctx.bound entries))
      (host.machine (pointer + 1) (State.push ⟨stack, (properties ctx entries world).2⟩
        (.object (Entries.ofPairs (built.reverse ++ (properties ctx entries world).1))) origin))

theorem Simulated.andThen {e : Expression} {rest : Code} {go : State → Flow}
    (h : Simulated limits e) (hhost : Hosted limits ctx host)
    (hcode : Placed host.code pointer (ofExpression ctx.bound e ++ rest))
    (hgo : Placed host.code (pointer + width ctx.bound e) rest → ∀ s,
      Follows limits host stop (host.machine (pointer + width ctx.bound e) s) (go s)) (s : State) :
    Follows limits host stop (host.machine pointer s)
      ((expression ctx pointer e s).andThen go) := by
  have hrest := hcode.right
  rw [length_ofExpression] at hrest
  exact (h hhost hcode.left s).andThen (hgo hrest)

section

variable {e left right value key : Expression} (hfree : limits.stepLimit = none)
include hfree

theorem simulated_literal (node : Node) (value : Literal) :
    Simulated limits (.literal node value) := by
  intro ctx host pointer _ hcode s
  cases value with
  | none => exact reaches_pushNone hfree hcode
  | _ => exact reaches_push hfree hcode

theorem simulated_name (node : Node) (name : String) : Simulated limits (.name node name) := by
  intro ctx host pointer hhost hcode s
  have hload := reaches_loadName (s := s) hfree hcode
  rw [hhost.scope] at hload
  exact hload

theorem simulated_unary (node : Node) (operator : UnaryOperator) (h : Simulated limits e) :
    Simulated limits (.unary node operator e) := by
  intro ctx host pointer hhost hcode s
  have hplain : operator ≠ .increment → operator ≠ .decrement →
      Placed host.code pointer
        (ofExpression ctx.bound e ++ [.plain (unaryOpcode operator) node.span]) →
      Follows limits host (pointer + (width ctx.bound e + 1)) (host.machine pointer s)
        ((expression ctx pointer e s).andThen
          ((unaryEffect operator).apply (pointer + width ctx.bound e) node.span)) :=
    fun hinc hdec hcode => h.andThen hhost hcode
      (fun hcode _ => follows_effect hfree (realises_unaryEffect hinc hdec) hcode) s
  cases operator with
  | increment =>
    have hstep := follows_stepOf (s := s) hfree realises_increase realises_decrease hcode
    rw [hhost.scope] at hstep
    exact hstep
  | decrement =>
    have hstep := follows_stepOf (s := s) hfree realises_decrease realises_increase hcode
    rw [hhost.scope] at hstep
    exact hstep
  | negate | not | bitwiseNot => exact hplain (by simp) (by simp) hcode

theorem simulated_binary (node : Node) (operator : BinaryOperator) (hleft : Simulated limits left)
    (hright : Simulated limits right) : Simulated limits (.binary node operator left right) := by
  intro ctx host pointer hhost hcode s
  cases hbound : ctx.bound.operation? node with
  | none =>
    simp only [ofExpression, hbound] at hcode
    simp only [expression, width, hbound]
    exact reaches_noop hfree hcode
  | some operation =>
    simp only [ofExpression, hbound, List.append_assoc] at hcode
    simp only [expression, width, hbound, ← Nat.add_assoc]
    refine hleft.andThen hhost hcode (fun hcode => ?_) s
    refine hright.andThen hhost hcode fun hcode s => ?_
    rw [← List.append_nil (operation.opcodes.map _)] at hcode
    exact follows_effects hfree (realises_effects operation) hcode

theorem simulated_assign (node : Node) (operator : Option BinaryOperator) (target : Expression)
    (hvalue : Simulated limits value) : Simulated limits (.assign node operator target value) := by
  intro ctx host pointer hhost hcode s
  cases target with
  | name targetNode name =>
    cases operator with
    | none =>
      simp only [expression, width, ← Nat.add_assoc, ← hhost.scope]
      refine Follows.of_reaches (reaches_push hfree hcode) ?_
      exact hvalue.andThen hhost hcode.tail (fun hcode s => follows_store hfree hcode) _
    | some operator =>
      cases hbound : ctx.bound.operation? node with
      | none =>
        simp only [ofExpression, hbound] at hcode
        simp only [expression, width, hbound]
        exact reaches_noop hfree hcode
      | some operation =>
        simp only [ofExpression, hbound, List.append_assoc] at hcode
        simp only [expression, width, hbound, ← Nat.add_assoc, ← hhost.scope]
        have hload := (reaches_push (s := s) hfree hcode).trans (reaches_loadName hfree hcode.tail)
        refine Follows.of_reaches hload ?_
        refine hvalue.andThen hhost hcode.tail.right (fun hcode s => ?_) _
        have hstore := hcode.right
        rw [List.length_map, length_opcodes] at hstore
        exact (follows_effects hfree (realises_effects operation) hcode).andThen
          fun s => follows_store hfree hstore
  | _ => exact reaches_noop hfree hcode

theorem simulated_object (node : Node) {entries : List (Expression × Expression)}
    (h : EntriesSimulated limits entries) : Simulated limits (.object node entries) := by
  intro ctx host pointer hhost hcode s
  obtain ⟨first, hfirst, hreach⟩ := h hhost pointer s.stack s.world node.span []
  exact (reaches_execute hfree hcode hfirst).trans hreach

theorem simulated_call (node : Node) {callee : Expression} {arguments : List Expression}
    (hcallee : Simulated limits callee) (harguments : ListSimulated limits arguments) :
    Simulated limits (.call node callee arguments) := by
  intro ctx host pointer hhost hcode s
  simp only [expression, width, ← Nat.add_assoc, ← length_ofExpressions]
  refine hcallee.andThen hhost hcode (fun hcode s => ?_) s
  refine follows_call (fun world => expressions ctx 0 arguments { world }) hfree hhost hcode ?_
  intro slot stack resume world
  have hrun := harguments (hhost.arguments (pointer + width ctx.bound callee) stack
    (.arguments slot (ctx.bound.parameters node) node.span resume)
    (ofExpressions ctx.bound arguments)) (Code.placed_self _) { world }
  rw [Nat.zero_add, ← length_ofExpressions] at hrun
  exact hrun

theorem simulated_member (node : Node) {object : Expression} (name : Name)
    (hobject : Simulated limits object) : Simulated limits (.member node object name) := by
  intro ctx host pointer hhost hcode s
  simp only [expression, width]
  refine hobject.andThen hhost hcode (fun hcode s => ?_) s
  exact (follows_index hfree hcode.tail).of_reaches (reaches_push hfree hcode)

theorem simulated_element (node : Node) {object : Expression} (hobject : Simulated limits object)
    (hkey : Simulated limits key) : Simulated limits (.element node object key) := by
  intro ctx host pointer hhost hcode s
  rw [ofExpression, List.append_assoc] at hcode
  simp only [expression, width, ← Nat.add_assoc]
  refine hobject.andThen hhost hcode (fun hcode => ?_) s
  exact hkey.andThen hhost hcode fun hcode s => follows_index hfree hcode

end

theorem listSimulated_cons {e : Expression} {es : List Expression} (he : Simulated limits e)
    (hes : ListSimulated limits es) : ListSimulated limits (e :: es) := by
  intro ctx host pointer hhost hcode s
  simp only [expressions, widths, ← Nat.add_assoc]
  exact he.andThen hhost hcode (fun hcode => hes hhost hcode) s

def keyCode (bound : BoundTree) (key : Expression) : Code :=
  match key with
  | .name node name => [pushName name node.span]
  | key => ofExpression bound key

def keyFlow (ctx : Context) (key : Expression) (s : State) : Flow :=
  match key with
  | .name node name => .next (s.push (.string name) node.span)
  | key => expression ctx 0 key s

def entryFlow (part : Context → State → Flow) (ctx : Context) (world : World) : Flow :=
  part { ctx with scope := (world.inner ctx.scope).2 } { world := (world.inner ctx.scope).1 }

theorem ofProperties_cons (bound : BoundTree) (key value : Expression)
    (rest : List (Expression × Expression)) :
    ofProperties bound ((key, value) :: rest) =
      (keyCode bound key, ofExpression bound value) :: ofProperties bound rest := by
  cases key <;> rfl

theorem properties_cons (ctx : Context) (key value : Expression)
    (rest : List (Expression × Expression)) (world : World) {first second : Flow}
    (hfirst : entryFlow (keyFlow · key ·) ctx world = first)
    (hsecond : entryFlow (expression · 0 value ·) ctx first.state.world = second) :
    properties ctx ((key, value) :: rest) world =
      ((first.value, second.value) :: (properties ctx rest second.state.world).1,
        (properties ctx rest second.state.world).2) := by
  subst hfirst hsecond
  rw [properties]
  rfl

theorem follows_keyCode {key : Expression} (hfree : limits.stepLimit = none)
    (hkey : Simulated limits key) (hhost : Hosted limits ctx host)
    (hcode : host.code = keyCode ctx.bound key) (s : State) :
    Follows limits host host.code.length (host.machine 0 s) (keyFlow ctx key s) := by
  have hplaced : Placed host.code 0 (keyCode ctx.bound key) := hcode ▸ Code.placed_self _
  have hplain : Placed host.code 0 (ofExpression ctx.bound key) →
      Follows limits host (ofExpression ctx.bound key).length (host.machine 0 s)
        (expression ctx 0 key s) := by
    intro hplaced
    have hrun := hkey hhost hplaced s
    rwa [Nat.zero_add, ← length_ofExpression] at hrun
  rw [hcode]
  cases key with
  | name node name => exact reaches_push hfree hplaced
  | _ => exact hplain hplaced

theorem entriesSimulated_cons {key value : Expression} {rest : List (Expression × Expression)}
    (hfree : limits.stepLimit = none) (hkey : Simulated limits key)
    (hvalue : Simulated limits value) (hrest : EntriesSimulated limits rest) :
    EntriesSimulated limits ((key, value) :: rest) := by
  intro ctx host hhost pointer stack world origin built
  generalize hfirst : entryFlow (keyFlow · key ·) ctx world = first
  generalize hsecond : entryFlow (expression · 0 value ·) ctx first.state.world = second
  rw [ofProperties_cons, properties_cons ctx key value rest world hfirst hsecond]
  have hkeyRun := follows_keyCode hfree hkey (hhost.waiting pointer stack
    (.key origin built (ofExpression ctx.bound value) (ofProperties ctx.bound rest))
    (keyCode ctx.bound key) (world.inner ctx.scope).2) rfl { world := (world.inner ctx.scope).1 }
  have hvalueRun := hvalue (hhost.waiting pointer stack
    (.value origin built first.value (ofProperties ctx.bound rest))
    (ofExpression ctx.bound value) (first.state.world.inner ctx.scope).2) (Code.placed_self _)
    { world := (first.state.world.inner ctx.scope).1 }
  rw [Nat.zero_add, ← length_ofExpression] at hvalueRun
  have hdone := hrest hhost pointer stack second.state.world origin
    ((first.value, second.value) :: built)
  rw [List.reverse_cons, List.append_assoc] at hdone
  rw [← hhost.scope] at hkeyRun hvalueRun
  rw [entryFlow, ← hhost.scope] at hfirst hsecond
  rw [hfirst] at hkeyRun
  rw [hsecond] at hvalueRun
  exact leads_enterEntry hkeyRun fun _ _ _ _ => leads_enterEntry hvalueRun fun _ _ _ _ => hdone

mutual

theorem simulated (hfree : limits.stepLimit = none) : (e : Expression) → Simulated limits e
  | .literal node value => simulated_literal hfree node value
  | .name node name => simulated_name hfree node name
  | .paren _ inner => simulated hfree inner
  | .unary node operator operand => simulated_unary hfree node operator (simulated hfree operand)
  | .binary node operator left right =>
    simulated_binary hfree node operator (simulated hfree left) (simulated hfree right)
  | .assign node operator target value =>
    simulated_assign hfree node operator target (simulated hfree value)
  | .object node entries => simulated_object hfree node (entriesSimulated hfree entries)
  | .call node callee arguments =>
    simulated_call hfree node (simulated hfree callee) (listSimulated hfree arguments)
  | .member node object name => simulated_member hfree node name (simulated hfree object)
  | .element node object key =>
    simulated_element hfree node (simulated hfree object) (simulated hfree key)
  | .hole _ => fun _ _ _ _ hcode _ => reaches_noop hfree hcode
termination_by structural e => e

theorem listSimulated (hfree : limits.stepLimit = none) :
    (es : List Expression) → ListSimulated limits es
  | [] => fun _ _ _ _ _ _ => .refl _
  | e :: es => listSimulated_cons (simulated hfree e) (listSimulated hfree es)
termination_by structural es => es

theorem entriesSimulated (hfree : limits.stepLimit = none) :
    (entries : List (Expression × Expression)) → EntriesSimulated limits entries
  | [] => fun _ _ _ _ _ _ _ built => by
    rw [properties, List.append_nil]
    exact ⟨_, rfl, .refl _⟩
  | (key, value) :: rest =>
    entriesSimulated_cons hfree (simulated hfree key) (simulated hfree value)
      (entriesSimulated hfree rest)
termination_by structural entries => entries

end

end StackScript.Direct
