import StackScript.Proofs.Binding.Parallel
import StackScript.Proofs.Evaluator.Alike
import StackScript.Proofs.Evaluator.Returns
import StackScript.Proofs.Evaluator.Termination
import StackScript.Proofs.Machine.StepLimit
import StackScript.Proofs.Session.StackDiscipline
import StackScript.Proofs.Tree.Joining

set_option autoImplicit false

/-!
# Two texts at once

Main statements: `incremental_agrees_with_batch`, and `evaluated_texts_agree_with_batch` for every
session that evaluations lead to. Two texts that are evaluated one after the other come to the same
as both evaluated at once, with a semicolon on a line of its own between them, if nothing is reported
and no value is given back outside of functions.

The joined text is read as the two texts are, with larger numbers for the nodes of the second one,
and is bound accordingly. Its code follows the evaluator, and so does the code of the two texts. The
values that the first text left on the stack lie below those of the second one, which does not reach
for them.
-/
namespace StackScript

def Closure.bare (closure : Closure) : Closure := { closure with body := Code.bare closure.body }

/-- The same scopes and functions; the instructions of function bodies come from nowhere. -/
def Heap.bare (heap : Heap) : Heap := { heap with closures := heap.closures.map Closure.bare }

namespace Direct

theorem Routine.Alike.closure {routine routine' : Routine} (h : routine.Alike routine') :
    routine'.closure.bare = routine.closure.bare := by
  have hbody := Generate.bare_ofStatements routine.body 0 h.body
  have hcode : Code.bare routine'.code = Code.bare routine.code := by
    unfold Routine.code
    exact Code.bare_append_of_bare hbody.symm rfl
  simp only [Routine.closure, Closure.bare, h.name, h.parameters, h.scope, hcode]

theorem World.Alike.heap {world world' : World} (h : world.Alike world') :
    world'.heap.bare = world.heap.bare := by
  have hclosures : (world'.routines.map Routine.closure).map Closure.bare =
      (world.routines.map Routine.closure).map Closure.bare := by
    refine Array.ext_getElem? fun id => ?_
    have hrel := h.routines id
    simp only [Array.getElem?_map]
    generalize world.routines[id]? = found at hrel ⊢
    generalize world'.routines[id]? = found' at hrel ⊢
    cases hrel with
    | none => rfl
    | some hroutine => exact congrArg some hroutine.closure
  simp only [World.heap, Heap.bare, h.scopes, hclosures]

end Direct

def Globals.boundTree (globals : Globals) (source : String) : BoundTree :=
  (globals.bind (SyntaxTree.read source).tree).bound

theorem Globals.code_compile (globals : Globals) (source : String) :
    (globals.compile source).code =
      (SyntaxTree.read source).tree.code (globals.boundTree source) := by
  simp only [compile, boundTree]

theorem Globals.globals_compile (globals : Globals) (source : String) :
    (globals.compile source).globals = (globals.bind (SyntaxTree.read source).tree).globals := by
  simp only [compile]

namespace Machine

/-- The next step gives back a value, and not to a function that called. -/
def returns (m : Machine) : Bool :=
  m.suspended.isEmpty && m.active.code[m.active.pointer]?.any (·.opcode == .giveBack)

variable {limits : Limits} {m n : Machine}

theorem countSteps_pos_of_reaches {test : Machine → Bool} (hreach : Reaches limits m n)
    (htest : test n = true) {fuel : Nat} {outcome : Outcome}
    (hrun : m.run limits fuel = some outcome) : 0 < m.countSteps limits test fuel := by
  induction hreach generalizing fuel with
  | refl m =>
    cases fuel with
    | zero => simp [run] at hrun
    | succ fuel =>
      rw [countSteps, htest]
      exact Nat.add_pos_left Nat.one_pos _
  | next hstep _ ih =>
    cases fuel with
    | zero => simp [run] at hrun
    | succ fuel =>
      simp only [run, hstep] at hrun
      rw [countSteps_of_running fuel hstep]
      exact Nat.lt_of_lt_of_le (ih htest hrun) (Nat.le_add_left _ _)

end Machine

namespace Session

variable {session : Session} {world : Direct.World} {source : String}

/-- What evaluating the tree of a text comes to. -/
def flow (session : Session) (source : String) (world : Direct.World) : Direct.Flow :=
  Direct.evaluate session.limits.maxCallDepth (SyntaxTree.read source).tree
    (session.globals.boundTree source) globalScope world

theorem start_eq (hheap : world.heap = session.heap) (hlog : world.log = {}) :
    session.start source = (Direct.Host.ofCode
      ((SyntaxTree.read source).tree.code (session.globals.boundTree source)) globalScope).machine
        0 { world } := by
  rw [start, compile, Globals.code_compile]
  simp only [Direct.Host.machine, hlog, hheap]
  rfl

theorem run_start (source : String) (hfree : session.limits.stepLimit = none)
    (hheap : world.heap = session.heap) (hlog : world.log = {}) :
    ∃ fuel outcome, (session.start source).run session.limits fuel = some outcome ∧
      outcome.value = (session.flow source world).value ∧
      outcome.machine.active.stack = (session.flow source world).state.stack ∧
      outcome.machine.heap = (session.flow source world).state.world.heap ∧
      outcome.machine.log = (session.flow source world).state.world.log := by
  have hends := Direct.ends_code hfree (SyntaxTree.read source).tree
    (session.globals.boundTree source) globalScope world
  obtain ⟨fuel, _, _, _, hrun⟩ := hends.run_eq_some rfl
  rw [start_eq hheap hlog, flow]
  generalize Direct.evaluate _ _ _ _ _ = flow at hrun ⊢
  exact ⟨fuel, _, hrun, rfl, rfl, rfl, rfl⟩

theorem given_flow (hfree : session.limits.stepLimit = none) (hheap : world.heap = session.heap)
    (hlog : world.log = {}) {fuel : Nat} {outcome : Outcome}
    (hrun : (session.start source).run session.limits fuel = some outcome)
    (hnone : (session.start source).countSteps session.limits Machine.returns fuel = 0) :
    (session.flow source world).given = none := by
  refine Classical.not_not.mp fun hgiven => ?_
  have hgives := Direct.gives_code hfree (SyntaxTree.read source).tree
    (session.globals.boundTree source) globalScope world
  obtain ⟨m, origin, hreach, hsuspended, hinstruction⟩ := hgives hgiven
  have hreturns : m.returns = true := by
    have hwaiting : m.suspended = [] := hsuspended
    simp [Machine.returns, hwaiting, hinstruction, Instruction.plain, Instruction.opcode]
  have hreach : (session.start source).Reaches session.limits m := by
    rw [start_eq hheap hlog]
    exact hreach
  exact absurd hnone (Machine.countSteps_pos_of_reaches hreach hreturns hrun).ne'

/-- The results of an evaluation are those of evaluating the tree. -/
structure Evaluated (session : Session) (source : String) (world : Direct.World)
    (evaluation : Evaluation) (later : Session) : Prop where
  value : evaluation.value = (session.flow source world).value
  diagnostics : evaluation.diagnostics = (session.compile source).diagnostics ++
    (session.flow source world).state.world.log.toList
  later : later = { session with
    globals := (session.compile source).globals
    heap := (session.flow source world).state.world.heap }
  stack : ∀ fuel outcome, (session.start source).run session.limits fuel = some outcome →
    outcome.machine.active.stack = (session.flow source world).state.stack

theorem exists_evaluated (source : String) (hfree : session.limits.stepLimit = none)
    (hheap : world.heap = session.heap) (hlog : world.log = {}) :
    ∃ fuel evaluation later, session.evalWithin fuel source = some (evaluation, later) ∧
      session.Evaluated source world evaluation later := by
  obtain ⟨fuel, outcome, hrun, hvalue, hstack, hlast, hreports⟩ := run_start source hfree hheap hlog
  refine ⟨fuel, _, _, congrArg (Option.map _) hrun, hvalue, ?_, ?_, fun fuel' outcome' hrun' => ?_⟩
  · rw [← hreports]
    rfl
  · rw [← hlast]
    rfl
  · rw [Machine.outcome_unique hrun hrun']
    exact hstack

theorem evaluated_of_evalWithin (hfree : session.limits.stepLimit = none)
    (hheap : world.heap = session.heap) (hlog : world.log = {}) {fuel : Nat}
    {evaluation : Evaluation} {later : Session}
    (h : session.evalWithin fuel source = some (evaluation, later)) :
    session.Evaluated source world evaluation later := by
  obtain ⟨fuel', evaluation', later', h', hevaluated⟩ := exists_evaluated source hfree hheap hlog
  obtain ⟨outcome, hrun, rfl, rfl⟩ := evalWithin_eq_some h
  obtain ⟨outcome', hrun', rfl, rfl⟩ := evalWithin_eq_some h'
  obtain rfl := Machine.outcome_unique hrun hrun'
  exact hevaluated

theorem generated_of_evalWithin (hfree : session.limits.stepLimit = none)
    (hheap : session.heap.Generated) {fuel : Nat} {evaluation : Evaluation} {later : Session}
    (h : session.evalWithin fuel source = some (evaluation, later)) : later.heap.Generated := by
  obtain ⟨world, hworld, hlog⟩ := Direct.exists_world_of_generated hheap
  rw [(evaluated_of_evalWithin hfree hworld hlog h).later]
  exact Direct.generated_heap _

theorem HasEvaluated.generated {texts : List String} (h : session.HasEvaluated texts)
    (hfree : session.limits.stepLimit = none) : session.heap.Generated := by
  induction h with
  | fresh limits => exact Heap.generated_withGlobalScope
  | @eval session later _ _ _ _ _ heval ih =>
    have hlimits : later.limits = session.limits := by
      obtain ⟨_, -, -, rfl⟩ := evalWithin_eq_some heval
      rfl
    rw [hlimits] at hfree
    exact generated_of_evalWithin hfree (ih hfree) heval

end Session

theorem Generate.statementsGaps_append (bound : BoundTree) (body body' : List Statement) :
    statementsGaps bound (body ++ body') =
      statementsGaps bound body ++ statementsGaps bound body' := by
  induction body with
  | nil => rfl
  | cons s rest ih =>
    rw [List.cons_append, statementsGaps, ih, statementsGaps, List.append_assoc]

theorem Globals.compile_diagnostics_eq_nil {globals : Globals} {source : String} :
    (globals.compile source).diagnostics = [] ↔ (SyntaxTree.read source).diagnostics = [] ∧
      (globals.bind (SyntaxTree.read source).tree).diagnostics = [] ∧
      (SyntaxTree.read source).tree.gaps (globals.boundTree source) = [] := by
  rw [← and_assoc, ← List.append_eq_nil_iff, ← List.append_eq_nil_iff]
  rfl

/-- The statements of the joined text are like those of the two texts, and so is what is recorded for
them. -/
theorem Globals.compile_joined {globals : Globals} {first second text : String}
    (htext : text = first ++ "\n;\n" ++ second)
    (hclean : (globals.compile first).diagnostics = [])
    (hclean' : ((globals.compile first).globals.compile second).diagnostics = []) :
    (globals.compile text).diagnostics = [] ∧
      (globals.compile text).globals = ((globals.compile first).globals.compile second).globals ∧
      ∃ body body', (SyntaxTree.read text).tree.statements = body ++ body' ∧
        Statement.ListLike ((globals.boundTree first).Agrees (globals.boundTree text))
          (SyntaxTree.read first).tree.statements body ∧
        Statement.ListLike
          (((globals.compile first).globals.boundTree second).Agrees (globals.boundTree text))
          (SyntaxTree.read second).tree.statements body' := by
  obtain ⟨hread, hbind, hgaps⟩ := compile_diagnostics_eq_nil.mp hclean
  rw [globals_compile] at hclean'
  obtain ⟨hread', hbind', hgaps'⟩ := compile_diagnostics_eq_nil.mp hclean'
  have hjoined := SyntaxTree.read_joined hread hread'
  rw [← htext] at hjoined
  obtain ⟨hquiet, body, body', hstatements, hlike, hlike'⟩ := hjoined
  have hbound := bind_joined hstatements hlike hlike' hbind hbind'
  have hfirst : Statement.ListLike ((globals.boundTree first).Agrees (globals.boundTree text))
      (SyntaxTree.read first).tree.statements body :=
    hlike.mono fun i j hij => by
      obtain ⟨hj, hlt⟩ := hij
      obtain rfl : j = i := hj
      exact (hbound.front j hlt).symm
  have hsecond : Statement.ListLike
      (((globals.bind (SyntaxTree.read first).tree).globals.boundTree second).Agrees
        (globals.boundTree text)) (SyntaxTree.read second).tree.statements body' :=
    hlike'.mono fun i j hij => by
      obtain ⟨rfl, -⟩ := hij
      exact (hbound.back i).symm
  have hnone : (SyntaxTree.read text).tree.gaps (globals.boundTree text) = [] := by
    rw [SyntaxTree.gaps, hstatements, Generate.statementsGaps_append]
    exact List.append_eq_nil_iff.mpr ⟨Generate.statementsGaps_of_like _ hfirst hgaps,
      Generate.statementsGaps_of_like _ hsecond hgaps'⟩
  simp only [globals_compile]
  exact ⟨compile_diagnostics_eq_nil.mpr ⟨hquiet, hbound.diagnostics, hnone⟩, hbound.globals,
    body, body', hstatements, hfirst, hsecond⟩

namespace Direct

theorem Flow.andThen_assoc (flow : Flow) (go go' : State → Flow) :
    (flow.andThen go).andThen go' = flow.andThen fun s => (go s).andThen go' := by
  cases flow <;> rfl

theorem statements_append (ctx : Context) (body body' : List Statement) (index : Nat) (s : State) :
    statements ctx index (body ++ body') s = (statements ctx index body s).andThen
      (statements ctx (index + statementsWidth ctx.bound body) body') := by
  induction body generalizing index s with
  | nil => rfl
  | cons st rest ih =>
    simp only [List.cons_append, statements, Flow.andThen_assoc, statementsWidth, ← Nat.add_assoc]
    exact congrArg _ (funext fun s => ih _ s)

theorem exists_next_of_like {maxCallDepth scope index : Nat} {bound bound' : BoundTree}
    {body body' : List Statement} {extra : List Value} {s s' : State} {flow : Flow}
    (hlike : Statement.ListLike (bound.Agrees bound') body body') (hs : s.Alike extra s')
    (hflow : statements ⟨bound, scope, maxCallDepth, body? maxCallDepth maxCallDepth⟩ index body s =
      flow)
    (hquiet : flow.state.world.log.toList = []) (hgiven : flow.given = none) (index' : Nat) :
    ∃ t t', flow = .next t ∧
      statements ⟨bound', scope, maxCallDepth, body? maxCallDepth maxCallDepth⟩ index' body' s' =
        .next t' ∧ t.Alike extra t' := by
  have hctx : Context.Alike ⟨bound, scope, maxCallDepth, body? maxCallDepth maxCallDepth⟩
      ⟨bound', scope, maxCallDepth, body? maxCallDepth maxCallDepth⟩ :=
    ⟨rfl, bodiesAlike maxCallDepth maxCallDepth⟩
  have hpairs := (pairs_statements body extra index index' hctx hlike).pairs s s' hs
  rw [hflow] at hpairs
  obtain hreported | halike := hpairs
  · exact absurd hquiet hreported
  · generalize statements _ _ body' s' = flow' at halike ⊢
    cases halike with
    | next ht => exact ⟨_, _, rfl, rfl, ht⟩
    | gives _ _ => cases hgiven

end Direct

theorem DiagnosticLog.eq_empty_of_toList {log : DiagnosticLog} (h : log.toList = []) : log = {} := by
  obtain ⟨entries⟩ := log
  exact congrArg DiagnosticLog.mk (Array.toList_eq_nil_iff.mp h)

theorem Session.flow_joined {session middle : Session} {first second text : String}
    {world : Direct.World} {flow flow' : Direct.Flow}
    (htext : text = first ++ "\n;\n" ++ second) (hlog : world.log = {})
    (hclean : (session.compile first).diagnostics = [])
    (hclean' : (middle.compile second).diagnostics = [])
    (hmiddle : middle.globals = (session.compile first).globals)
    (hlimits : middle.limits = session.limits) (hflow : session.flow first world = flow)
    (hflow' : middle.flow second flow.state.world = flow')
    (hquiet : flow.state.world.log.toList = []) (hquiet' : flow'.state.world.log.toList = [])
    (hgiven : flow.given = none) (hgiven' : flow'.given = none) :
    ∃ t t' extra, flow' = .next t ∧ session.flow text world = .next t' ∧ t.Alike extra t' := by
  unfold Session.flow at hflow'
  rw [Session.compile, hmiddle] at hclean'
  rw [hmiddle, hlimits] at hflow'
  obtain ⟨-, -, body, body', hstatements, hfirst, hsecond⟩ :=
    Globals.compile_joined htext hclean hclean'
  have hstart : Direct.State.Alike [] { world } { world } := ⟨.refl (hlog ▸ rfl), rfl⟩
  obtain ⟨s, s', rfl, hfront, hs⟩ := Direct.exists_next_of_like hfirst hstart hflow hquiet hgiven 0
  have hbetween : Direct.State.Alike (s.stack.map (·.value)) { world := s.world } s' :=
    ⟨hs.world, hs.stack.trans (List.append_nil _)⟩
  obtain ⟨t, t', rfl, hback, ht⟩ := Direct.exists_next_of_like hsecond hbetween hflow' hquiet'
    hgiven' _
  refine ⟨t, t', _, rfl, ?_, ht⟩
  unfold Session.flow Direct.evaluate
  rw [hstatements, Direct.statements_append, hfront]
  exact hback

theorem Direct.State.Alike.top {extra : List Value} {s s' : State} (h : s.Alike extra s')
    (hstack : s.stack ≠ []) : s'.top = s.top := by
  obtain ⟨stack, world⟩ := s
  obtain ⟨stack', world'⟩ := s'
  have hvalues := h.stack
  cases stack with
  | nil => exact absurd rfl hstack
  | cons slot stack =>
    cases stack' with
    | nil => cases hvalues
    | cons slot' stack' => exact (List.cons.inj hvalues).1

/-- What both texts at once come to, from a world that stands for the heap of the session. -/
theorem Session.exists_batch {session middle last : Session} {world : Direct.World}
    {first second : String} {fuel fuel' : Nat} {evaluation evaluation' : Evaluation}
    (hworld : world.heap = session.heap) (hlog : world.log = {})
    (hfree : session.limits.stepLimit = none)
    (hfirst : session.evalWithin fuel first = some (evaluation, middle))
    (hsecond : middle.evalWithin fuel' second = some (evaluation', last))
    (hclean : evaluation.diagnostics = []) (hclean' : evaluation'.diagnostics = [])
    (hends : (session.start first).countSteps session.limits Machine.returns fuel = 0)
    (hends' : (middle.start second).countSteps middle.limits Machine.returns fuel' = 0) :
    ∃ steps whole batch,
      session.evalWithin steps (first ++ "\n;\n" ++ second) = some (whole, batch) ∧
      whole.diagnostics = [] ∧ batch.globals = last.globals ∧ batch.heap.bare = last.heap.bare ∧
      ∀ outcome, (middle.start second).run middle.limits fuel' = some outcome →
        outcome.machine.active.stack ≠ [] → whole.value = evaluation'.value := by
  generalize htext : first ++ "\n;\n" ++ second = text
  -- The first text, from `world` on.
  have hone := Session.evaluated_of_evalWithin hfree hworld hlog hfirst
  obtain ⟨hcompiled, hquiet⟩ := List.append_eq_nil_iff.mp (hone.diagnostics.symm.trans hclean)
  obtain ⟨_, hrun, -⟩ := Session.evalWithin_eq_some hfirst
  have hgiven := Session.given_flow hfree hworld hlog hrun hends
  -- The second text, from the world that the first one leaves.
  have hglobals : middle.globals = (session.compile first).globals := by rw [hone.later]
  have hlimits : middle.limits = session.limits := by rw [hone.later]
  have hworld' : (session.flow first world).state.world.heap = middle.heap := by rw [hone.later]
  have hlog' := DiagnosticLog.eq_empty_of_toList hquiet
  have hfree' : middle.limits.stepLimit = none := hlimits ▸ hfree
  have htwo := Session.evaluated_of_evalWithin hfree' hworld' hlog' hsecond
  obtain ⟨hcompiled', hquiet'⟩ := List.append_eq_nil_iff.mp (htwo.diagnostics.symm.trans hclean')
  obtain ⟨_, hrun', -⟩ := Session.evalWithin_eq_some hsecond
  have hgiven' := Session.given_flow hfree' hworld' hlog' hrun' hends'
  -- Both texts, from `world` on.
  obtain ⟨t, t', extra, hlast, hboth, halike⟩ := Session.flow_joined htext.symm hlog hcompiled
    hcompiled' hglobals hlimits rfl rfl hquiet hquiet' hgiven hgiven'
  obtain ⟨hnone, hdeclared, -⟩ := Globals.compile_joined htext.symm hcompiled
    (hglobals ▸ hcompiled')
  obtain ⟨steps, whole, batch, heval, hwhole⟩ := Session.exists_evaluated text hfree hworld hlog
  refine ⟨steps, whole, batch, heval, ?_, ?_, ?_, fun outcome hrun hstack => ?_⟩
  · rw [hwhole.diagnostics, hboth]
    exact List.append_eq_nil_iff.mpr ⟨hnone, halike.world.quiet'⟩
  · simp only [hwhole.later, htwo.later, Session.compile, hglobals]
    exact hdeclared
  · rw [hwhole.later, htwo.later, hboth, hlast]
    exact halike.world.heap
  · rw [htwo.stack fuel' outcome hrun, hlast] at hstack
    rw [hwhole.value, htwo.value, hboth, hlast]
    exact halike.top hstack

/-- Two texts are evaluated one after the other, nothing is reported, and no value is given back
outside of functions. Then both at once are evaluated without a report as well. The same globals are
declared, and the heap is the same up to places in the source: all scopes have the same bindings, and
functions have the same names, parameters, scopes and instructions. If the second text leaves a
value on its stack, its value is also that of both at once.

The bodies of the functions that the session starts with are code generated from some statements.
This is so in every session that has come about by evaluating texts. -/
theorem incremental_agrees_with_batch (session middle last : Session) (first second : String)
    (fuel fuel' : Nat) (evaluation evaluation' : Evaluation)
    (hfree : session.limits.stepLimit = none) (hheap : session.heap.Generated)
    (hfirst : session.evalWithin fuel first = some (evaluation, middle))
    (hsecond : middle.evalWithin fuel' second = some (evaluation', last))
    (hclean : evaluation.diagnostics = []) (hclean' : evaluation'.diagnostics = [])
    (hends : (session.start first).countSteps session.limits Machine.returns fuel = 0)
    (hends' : (middle.start second).countSteps middle.limits Machine.returns fuel' = 0) :
    ∃ steps whole batch,
      session.evalWithin steps (first ++ "\n;\n" ++ second) = some (whole, batch) ∧
      whole.diagnostics = [] ∧ batch.globals = last.globals ∧ batch.heap.bare = last.heap.bare ∧
      ∀ outcome, (middle.start second).run middle.limits fuel' = some outcome →
        outcome.machine.active.stack ≠ [] → whole.value = evaluation'.value := by
  obtain ⟨world, hworld, hlog⟩ := Direct.exists_world_of_generated hheap
  exact Session.exists_batch hworld hlog hfree hfirst hsecond hclean hclean' hends hends'

set_option maxRecDepth 100000 in
/-- A session knows a function from an earlier text. The first text leaves values on the stack, and
the second one declares a function, calls both and branches. -/
theorem incremental_agrees_with_batch_of_later_texts :
    let fresh : Session := {}
    let first := "let x = twice(3); x; twice(x);"
    let second :=
      "fn add(n) \x7b return n + x; \x7d if true \x7b let y = add(1); \x7d else \x7b x \x7d add(2);"
    ∃ before session middle last evaluation evaluation',
      fresh.evalWithin 100 "fn twice(n) -> n * 2;" = some (before, session) ∧
      session.evalWithin 100 first = some (evaluation, middle) ∧
      middle.evalWithin 100 second = some (evaluation', last) ∧
      evaluation.diagnostics = [] ∧ evaluation'.diagnostics = [] ∧
      ∃ steps whole batch,
        session.evalWithin steps (first ++ "\n;\n" ++ second) = some (whole, batch) ∧
        whole.diagnostics = [] ∧ batch.globals = last.globals ∧
        batch.heap.bare = last.heap.bare ∧ whole.value = evaluation'.value := by
  intro fresh first second
  have hruns : ((fresh.evalWithin 100 "fn twice(n) -> n * 2;").any fun result =>
      (result.2.evalWithin 100 first).any fun result' =>
      result'.1.diagnostics.isEmpty &&
      ((result.2.start first).countSteps result.2.limits Machine.returns 100 == 0 &&
      (result'.2.evalWithin 100 second).any fun result'' =>
      result''.1.diagnostics.isEmpty &&
      ((result'.2.start second).countSteps result'.2.limits Machine.returns 100 == 0 &&
      ((result'.2.start second).run result'.2.limits 100).any fun outcome =>
      !outcome.machine.active.stack.isEmpty))) = true := by
    decide +kernel
  obtain ⟨⟨before, session⟩, hbefore, hruns⟩ := (Option.any_eq_true _ _).mp hruns
  obtain ⟨⟨evaluation, middle⟩, hfirst, hruns⟩ := (Option.any_eq_true _ _).mp hruns
  simp only [Bool.and_eq_true, List.isEmpty_iff, beq_iff_eq] at hruns
  obtain ⟨hclean, hends, hruns⟩ := hruns
  obtain ⟨⟨evaluation', last⟩, hsecond, hruns⟩ := (Option.any_eq_true _ _).mp hruns
  simp only [Bool.and_eq_true, List.isEmpty_iff, beq_iff_eq] at hruns
  obtain ⟨hclean', hends', hruns⟩ := hruns
  obtain ⟨outcome, hrun, hstack⟩ := (Option.any_eq_true _ _).mp hruns
  have hfree : session.limits.stepLimit = none := by
    obtain ⟨_, -, -, rfl⟩ := Session.evalWithin_eq_some hbefore
    rfl
  have hheap := Session.generated_of_evalWithin rfl Heap.generated_withGlobalScope hbefore
  obtain ⟨steps, whole, batch, hwhole, hquiet, hglobals, hsame, hvalue⟩ :=
    incremental_agrees_with_batch session middle last first second 100 100 evaluation evaluation'
      hfree hheap hfirst hsecond hclean hclean' hends hends'
  refine ⟨before, session, middle, last, evaluation, evaluation', hbefore, hfirst, hsecond, hclean,
    hclean', steps, whole, batch, hwhole, hquiet, hglobals, hsame, hvalue outcome hrun ?_⟩
  simpa using hstack

/-- The same for a session of which only the texts are known that it has evaluated, whatever was
reported. -/
theorem evaluated_texts_agree_with_batch {session middle last : Session} {texts : List String}
    {first second : String} {fuel fuel' : Nat} {evaluation evaluation' : Evaluation}
    (htexts : session.HasEvaluated texts) (hfree : session.limits.stepLimit = none)
    (hfirst : session.evalWithin fuel first = some (evaluation, middle))
    (hsecond : middle.evalWithin fuel' second = some (evaluation', last))
    (hclean : evaluation.diagnostics = []) (hclean' : evaluation'.diagnostics = [])
    (hends : (session.start first).countSteps session.limits Machine.returns fuel = 0)
    (hends' : (middle.start second).countSteps middle.limits Machine.returns fuel' = 0) :
    ∃ steps whole batch,
      session.evalWithin steps (first ++ "\n;\n" ++ second) = some (whole, batch) ∧
      whole.diagnostics = [] ∧ batch.globals = last.globals ∧ batch.heap.bare = last.heap.bare ∧
      ∀ outcome, (middle.start second).run middle.limits fuel' = some outcome →
        outcome.machine.active.stack ≠ [] → whole.value = evaluation'.value := by
  obtain ⟨world, hworld, hlog⟩ := Direct.exists_world_of_generated (htexts.generated hfree)
  exact Session.exists_batch hworld hlog hfree hfirst hsecond hclean hclean' hends hends'

end StackScript
