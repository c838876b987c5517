import StackScript.Proofs.Code.Bare
import StackScript.Proofs.Evaluator.Simulation
import StackScript.Proofs.Machine.Safe

set_option autoImplicit false

/-!
# Evaluating trees of the same form

Evaluation does not depend on places, nor on the numbers of nodes beyond what binding recorded under
them. So trees of the same form are evaluated in the same way until something is reported, and that
may well happen on top of values that are on the stack of only one of the two: code that reaches for
a value below its own finds none, and that is reported.

A pair of actions takes states that are alike to flows that are alike, unless the first of them
reports something; what was reported once stays reported.
-/
namespace StackScript.Direct

structure Routine.Alike (routine routine' : Routine) : Prop where
  name : routine'.name = routine.name
  parameters : routine'.parameters = routine.parameters
  scope : routine'.scope = routine.scope
  body : Statement.ListLike (routine.bound.Agrees routine'.bound) routine.body routine'.body

namespace World

def Reported (world : World) : Prop := world.log.toList ≠ []

/-- The scopes are the same, functions differ in places and numbers, and nothing was reported. -/
structure Alike (world world' : World) : Prop where
  scopes : world'.scopes = world.scopes
  size : world'.routines.size = world.routines.size
  routines : ∀ id : Nat, Option.Rel Routine.Alike world.routines[id]? world'.routines[id]?
  quiet : world.log.toList = []
  quiet' : world'.log.toList = []

variable {world world' : World}

theorem Alike.inner (h : world.Alike world') (outer : Nat) :
    (world.inner outer).1.Alike (world'.inner outer).1 :=
  ⟨by simp only [World.inner, h.scopes], h.size, h.routines, h.quiet, h.quiet'⟩

theorem Alike.snd_inner (h : world.Alike world') (outer : Nat) :
    (world'.inner outer).2 = (world.inner outer).2 := by
  simp only [World.inner, h.scopes]

theorem Alike.withScopes (h : world.Alike world') (scopes : Heap) :
    ({ world with scopes } : World).Alike { world' with scopes } :=
  ⟨rfl, h.size, h.routines, h.quiet, h.quiet'⟩

theorem Alike.push (h : world.Alike world') {routine routine' : Routine}
    (hroutine : routine.Alike routine') :
    ({ world with routines := world.routines.push routine } : World).Alike
      { world' with routines := world'.routines.push routine' } := by
  refine ⟨h.scopes, by simp [h.size], fun id => ?_, h.quiet, h.quiet'⟩
  simp only [Array.getElem?_push, h.size]
  split
  · exact .some hroutine
  · exact h.routines id

end World

/-- The second stack has further values below those of the first. -/
structure State.Alike (extra : List Value) (s s' : State) : Prop where
  world : s.world.Alike s'.world
  stack : s'.stack.map (·.value) = s.stack.map (·.value) ++ extra

/-- Where a value is given back, it is the same unless it could be one of those below. -/
inductive Flow.Alike (extra : List Value) : Flow → Flow → Prop where
  | next {s s' : State} (h : s.Alike extra s') : Alike extra (.next s) (.next s')
  | gives {value value' : Value} {s s' : State} (world : s.world.Alike s'.world)
      (same : extra = [] → value' = value ∧ s'.stack.map (·.value) = s.stack.map (·.value)) :
      Alike extra (.ended (some value) s) (.ended (some value') s')

theorem Flow.Alike.world {extra : List Value} {flow flow' : Flow} (h : flow.Alike extra flow') :
    flow.state.world.Alike flow'.state.world := by
  cases h with
  | next h => exact h.world
  | gives world _ => exact world

theorem Flow.Alike.values {flow flow' : Flow} (h : flow.Alike [] flow') :
    flow'.state.stack.map (·.value) = flow.state.stack.map (·.value) := by
  cases h with
  | next h => exact h.stack.trans (List.append_nil _)
  | gives _ same => exact (same rfl).2

theorem State.top_of_values {s s' : State}
    (h : s'.stack.map (·.value) = s.stack.map (·.value)) : s'.top = s.top := by
  obtain ⟨stack, world⟩ := s
  obtain ⟨stack', world'⟩ := s'
  cases stack with
  | nil =>
    obtain rfl : stack' = [] := List.map_eq_nil_iff.mp h
    rfl
  | cons slot stack =>
    cases stack' with
    | nil => cases h
    | cons slot' stack' => exact (List.cons.inj h).1

theorem Flow.Alike.value {flow flow' : Flow} (h : flow.Alike [] flow') :
    flow'.value = flow.value := by
  have hvalues := h.values
  cases h with
  | next h => exact State.top_of_values hvalues
  | gives _ same => exact (same rfl).1

/-- The two actions do the same, or else the first of them reports something. -/
structure Pairs (extra : List Value) (action action' : State → Flow) : Prop where
  keeps : ∀ s, s.world.Reported → (action s).state.world.Reported
  pairs : ∀ s s', s.Alike extra s' →
    (action s).state.world.Reported ∨ (action s).Alike extra (action' s')

variable {extra : List Value} {ctx ctx' : Context}

namespace Pairs

variable {action action' go go' : State → Flow}

theorem of_reported (h : ∀ s, (action s).state.world.Reported) : Pairs extra action action' :=
  ⟨fun s _ => h s, fun s _ _ => .inl (h s)⟩

theorem next {f f' : State → State} (keeps : ∀ s, s.world.Reported → (f s).world.Reported)
    (h : ∀ s s', s.Alike extra s' → (f s).Alike extra (f' s')) :
    Pairs extra (fun s => .next (f s)) (fun s => .next (f' s)) :=
  ⟨keeps, fun s s' hs => .inr (.next (h s s' hs))⟩

theorem skip : Pairs extra Flow.next Flow.next := .next (fun _ hs => hs) fun _ _ hs => hs

theorem andThen (h : Pairs extra action action') (hgo : Pairs extra go go') :
    Pairs extra (fun s => (action s).andThen go) (fun s => (action' s).andThen go') := by
  have hkeeps : ∀ s, (action s).state.world.Reported →
      ((action s).andThen go).state.world.Reported := by
    intro s hs
    cases hflow : action s with
    | next t => exact hgo.keeps t (by rwa [hflow] at hs)
    | ended given t => rwa [hflow] at hs
  refine ⟨fun s hs => hkeeps s (h.keeps s hs), fun s s' hs => ?_⟩
  obtain hreported | halike := h.pairs s s' hs
  · exact .inl (hkeeps s hreported)
  · generalize action s = flow at halike ⊢
    generalize action' s' = flow' at halike ⊢
    cases halike with
    | next ht => exact hgo.pairs _ _ ht
    | gives world same => exact .inr (.gives world same)

end Pairs

theorem reported_report (s : State) (fault : RunFault) (span : Span) :
    (s.report fault span).world.Reported := by
  show (s.world.log.push _).toList ≠ []
  rw [toList_push]
  simp

theorem pairs_push (value : Value) (origin origin' : Span) :
    Pairs extra (fun s => .next (s.push value origin)) (fun s => .next (s.push value origin')) :=
  .next (fun _ hs => hs) fun _ _ hs => ⟨hs.world, congrArg (value :: ·) hs.stack⟩

theorem pairs_report (fault fault' : RunFault) (span span' : Span) :
    Pairs extra (fun s => .next (s.report fault span)) (fun s => .next (s.report fault' span')) :=
  .of_reported fun s => reported_report s fault span

theorem pairs_pop {index index' : Nat} {origin origin' : Span} {go go' : Slot → State → Flow}
    (h : ∀ slot slot' : Slot, slot'.value = slot.value → Pairs extra (go slot) (go' slot')) :
    Pairs extra (fun s => pop index origin s go) (fun s => pop index' origin' s go') := by
  refine ⟨fun s hs => ?_, fun s s' hs => ?_⟩
  · obtain ⟨stack, world⟩ := s
    cases stack with
    | nil => exact reported_report _ _ _
    | cons slot stack => exact (h slot slot rfl).keeps _ hs
  · obtain ⟨stack, world⟩ := s
    obtain ⟨stack', world'⟩ := s'
    cases stack with
    | nil => exact .inl (reported_report _ _ _)
    | cons slot stack =>
      have hvalues := hs.stack
      cases stack' with
      | nil => cases hvalues
      | cons slot' stack' =>
        obtain ⟨hslot, hstack⟩ := List.cons.inj hvalues
        exact (h slot slot' hslot).pairs _ _ ⟨hs.world, hstack⟩

theorem pairs_popTwo {index index' : Nat} {origin origin' : Span}
    {go go' : Slot → Slot → State → Flow}
    (h : ∀ top top' below below' : Slot, top'.value = top.value → below'.value = below.value →
      Pairs extra (go top below) (go' top' below')) :
    Pairs extra (fun s => popTwo index origin s go) (fun s => popTwo index' origin' s go') :=
  pairs_pop fun top top' htop => pairs_pop fun below below' hbelow =>
    h top top' below below' htop hbelow

theorem pairs_apply (effect : Effect) (index index' : Nat) (origin origin' : Span) :
    Pairs extra (effect.apply index origin) (effect.apply index' origin') := by
  show Pairs extra (fun s => effect.apply index origin s) (fun s => effect.apply index' origin' s)
  cases effect with
  | unary f =>
    simp only [Effect.apply]
    refine pairs_pop fun operand operand' hoperand => ?_
    rw [hoperand]
    cases f operand.value with
    | ok value => exact pairs_push value _ _
    | error error => exact pairs_report _ _ _ _
  | binary f =>
    simp only [Effect.apply]
    refine pairs_popTwo fun right right' left left' hright hleft => ?_
    rw [hright, hleft]
    cases f left.value right.value with
    | ok value => exact pairs_push value _ _
    | error error => exact pairs_report _ _ _ _

theorem pairs_applyAll (effects : List Effect) (index index' : Nat) (origin origin' : Span) :
    Pairs extra (applyAll index origin effects) (applyAll index' origin' effects) := by
  induction effects generalizing index index' with
  | nil => exact .skip
  | cons effect rest ih => exact (pairs_apply effect index index' origin origin').andThen (ih _ _)

theorem State.Alike.assign {s s' : State} (h : s.Alike extra s') (scope : Nat) (name : String)
    (value : Value) : (s.assign scope name value).Alike extra (s'.assign scope name value) := by
  have hscopes := h.world.scopes
  refine ⟨?_, h.stack⟩
  unfold State.assign
  rw [hscopes]
  exact h.world.withScopes _

theorem pairs_store (scope : Nat) (keep : Bool) (index index' : Nat) (origin origin' : Span) :
    Pairs extra (store scope keep index origin) (store scope keep index' origin') := by
  refine pairs_popTwo fun stored stored' slot slot' hstored hslot => ?_
  rw [hslot, hstored]
  cases slot.value with
  | string name =>
    have hassign : Pairs extra (fun s => .next (s.assign scope name stored.value))
        (fun s => .next (s.assign scope name stored.value)) :=
      .next (fun _ hs => hs) fun _ _ hs => hs.assign scope name stored.value
    cases keep with
    | false => exact hassign
    | true => exact hassign.andThen (pairs_push stored.value origin origin')
  | _ => exact pairs_report _ _ _ _

theorem pairs_select (index index' : Nat) (origin origin' : Span) :
    Pairs extra (select index origin) (select index' origin') := by
  refine pairs_popTwo fun key key' target target' hkey htarget => ?_
  rw [htarget, hkey]
  cases target.value with
  | object entries => exact pairs_push _ _ _
  | _ => exact pairs_report _ _ _ _

theorem pairs_load (scope : Nat) (name : String) (origin origin' : Span) :
    Pairs extra (fun s => .next (s.push (s.lookup scope name) origin))
      (fun s => .next (s.push (s.lookup scope name) origin')) := by
  refine .next (fun _ hs => hs) fun s s' hs => ⟨hs.world, ?_⟩
  have hlookup : s'.lookup scope name = s.lookup scope name := by
    rw [State.lookup, State.lookup, hs.world.scopes]
  exact hlookup ▸ congrArg (s'.lookup scope name :: ·) hs.stack

theorem pairs_step (scope : Nat) (apply undo : Effect) (name : String)
    (target target' origin origin' : Span) (index index' : Nat) :
    Pairs extra (step scope apply undo name target origin index)
      (step scope apply undo name target' origin' index') := by
  have hone : Pairs extra (fun s => .next (s.push (.int 1) origin))
      (fun s => .next (s.push (.int 1) origin')) := pairs_push _ _ _
  have hloaded := (pairs_push (.string name) target target').andThen
    ((pairs_load scope name target target').andThen hone)
  exact hloaded.andThen ((pairs_apply apply _ _ _ _).andThen ((pairs_store scope true _ _ _ _).andThen
    (hone.andThen (pairs_apply undo _ _ _ _))))

theorem pairs_stepOf {same : Nat → Nat → Prop} (scope : Nat) (apply undo : Effect)
    {operand operand' : Expression} (h : operand.Like same operand') (origin origin' : Span)
    (index index' : Nat) :
    Pairs extra (stepOf scope apply undo operand origin index)
      (stepOf scope apply undo operand' origin' index') := by
  cases h with
  | name _ => exact pairs_step scope apply undo _ _ _ _ _ _ _
  | _ => exact .skip

structure BodyAlike (body body' : Routine → Nat → World → Value × World) : Prop where
  keeps : ∀ routine scope world, world.Reported → (body routine scope world).2.Reported
  pairs : ∀ routine routine' scope scope' world world', routine.Alike routine' → scope' = scope →
    world.Alike world' → (body routine scope world).2.Reported ∨
      (body' routine' scope' world').1 = (body routine scope world).1 ∧
        (body routine scope world).2.Alike (body' routine' scope' world').2

inductive BodiesAlike : Option (Routine → Nat → World → Value × World) →
    Option (Routine → Nat → World → Value × World) → Prop where
  | none : BodiesAlike none none
  | some {body body' : Routine → Nat → World → Value × World} (h : BodyAlike body body') :
      BodiesAlike (some body) (some body')

structure Context.Alike (ctx ctx' : Context) : Prop where
  scope : ctx'.scope = ctx.scope
  bodies : BodiesAlike ctx.body? ctx'.body?

theorem Context.Alike.inner (h : ctx.Alike ctx') (scope : Nat) :
    ({ ctx with scope } : Context).Alike { ctx' with scope } := ⟨rfl, h.bodies⟩

def World.called (world : World) (routine : Routine) (recorded : List String)
    (arguments : List Value) : World :=
  { (world.inner routine.scope).1 with
    scopes := (world.inner routine.scope).1.scopes.defineAll (world.inner routine.scope).2
      (if recorded.isEmpty then routine.parameters else recorded) arguments }

theorem World.Alike.called {world world' : World} (h : world.Alike world')
    {routine routine' : Routine} (hroutine : routine.Alike routine') (recorded : List String)
    (arguments : List Value) :
    (world.called routine recorded arguments).Alike (world'.called routine' recorded arguments) := by
  have hinner := h.inner routine.scope
  unfold World.called
  rw [hroutine.scope, hroutine.parameters, h.snd_inner, hinner.scopes]
  exact hinner.withScopes _

theorem pairs_invoke (hctx : ctx.Alike ctx') {callee callee' : Slot}
    (hcallee : callee'.value = callee.value) (recorded : List String) (arguments : List Value)
    (origin origin' : Span) :
    Pairs extra (fun s => .next (invoke ctx callee recorded arguments origin s))
      (fun s => .next (invoke ctx' callee' recorded arguments origin' s)) := by
  unfold invoke
  rw [hcallee]
  cases callee.value with
  | function ref =>
    have hbodies := hctx.bodies
    generalize ctx.body? = bodies at hbodies ⊢
    generalize ctx'.body? = bodies' at hbodies ⊢
    cases hbodies with
    | none => exact .of_reported fun s => reported_report s _ _
    | @some body body' hbody =>
      refine ⟨fun s hs => ?_, fun s s' hs => ?_⟩
      · dsimp only
        cases s.world.routines[ref.id]? with
        | none => exact hs
        | some routine => exact hbody.keeps _ _ _ hs
      · have hrel := hs.world.routines ref.id
        dsimp only
        generalize s.world.routines[ref.id]? = found at hrel ⊢
        generalize s'.world.routines[ref.id]? = found' at hrel ⊢
        cases hrel with
        | none => exact .inr (.next hs)
        | @some routine routine' hroutine =>
          have hscope : (s'.world.inner routine'.scope).2 = (s.world.inner routine.scope).2 := by
            rw [hroutine.scope, hs.world.snd_inner]
          obtain hreported | ⟨hvalue, hworld⟩ := hbody.pairs _ _ _ _ _ _ hroutine hscope
            (hs.world.called hroutine recorded arguments)
          · exact .inl hreported
          · exact .inr (.next ⟨hworld, congrArg₂ List.cons hvalue hs.stack⟩)
  | _ => exact pairs_report _ _ _ _

theorem pairs_arguments (hctx : ctx.Alike ctx') {arguments arguments' : State → Flow}
    (h : Pairs [] arguments arguments') {callee callee' : Slot}
    (hcallee : callee'.value = callee.value) (recorded : List String) (origin origin' : Span) :
    Pairs extra
      (fun s =>
        let given := (arguments { s with stack := [] }).state
        .next (invoke ctx callee recorded (given.stack.reverse.map (·.value)) origin
          { s with world := given.world }))
      (fun s =>
        let given := (arguments' { s with stack := [] }).state
        .next (invoke ctx' callee' recorded (given.stack.reverse.map (·.value)) origin'
          { s with world := given.world })) := by
  have hinvoke : ∀ values, Pairs extra
      (fun s => .next (invoke ctx callee recorded values origin s))
      (fun s => .next (invoke ctx' callee' recorded values origin' s)) :=
    fun values => pairs_invoke hctx hcallee recorded values origin origin'
  refine ⟨fun s hs => (hinvoke _).keeps _ (h.keeps _ hs), fun s s' hs => ?_⟩
  obtain hreported | halike := h.pairs { s with stack := [] } { s' with stack := [] } ⟨hs.world, rfl⟩
  · exact .inl ((hinvoke _).keeps _ hreported)
  · dsimp only
    rw [List.map_reverse, List.map_reverse, halike.values]
    exact (hinvoke _).pairs _ _ ⟨halike.world, hs.stack⟩

structure EntriesAlike (parts parts' : World → List (Value × Value) × World) : Prop where
  keeps : ∀ world, world.Reported → (parts world).2.Reported
  pairs : ∀ world world', world.Alike world' → (parts world).2.Reported ∨
    (parts' world').1 = (parts world).1 ∧ (parts world).2.Alike (parts' world').2

theorem EntriesAlike.pairs_object {parts parts' : World → List (Value × Value) × World}
    (h : EntriesAlike parts parts') (origin origin' : Span) :
    Pairs extra
      (fun s => .next (State.push { s with world := (parts s.world).2 }
        (.object (Entries.ofPairs (parts s.world).1)) origin))
      (fun s => .next (State.push { s with world := (parts' s.world).2 }
        (.object (Entries.ofPairs (parts' s.world).1)) origin')) := by
  refine ⟨fun s hs => h.keeps _ hs, fun s s' hs => ?_⟩
  obtain hreported | ⟨hpairs, hworld⟩ := h.pairs _ _ hs.world
  · exact .inl hreported
  · rw [hpairs]
    exact .inr (.next ⟨hworld, congrArg (Value.object _ :: ·) hs.stack⟩)

/-- The expressions are evaluated in the same way, whatever lies below on the stack. -/
def ExpressionsAlike (ctx ctx' : Context) (e e' : Expression) : Prop :=
  ∀ (extra : List Value) (index index' : Nat),
    Pairs extra (expression ctx index e) (expression ctx' index' e')

section Cases

variable {node node' : Node} {left left' right right' e e' : Expression}

theorem alike_name (hctx : ctx.Alike ctx') (name : String) :
    ExpressionsAlike ctx ctx' (.name node name) (.name node' name) := by
  intro extra index index'
  show Pairs extra (fun s => .next (s.push (s.lookup ctx.scope name) node.span))
    (fun s => .next (s.push (s.lookup ctx'.scope name) node'.span))
  rw [hctx.scope]
  exact pairs_load ctx.scope name _ _

theorem alike_unary {same : Nat → Nat → Prop} (hctx : ctx.Alike ctx') (operator : UnaryOperator)
    (hlike : e.Like same e') (he : ExpressionsAlike ctx ctx' e e') :
    ExpressionsAlike ctx ctx' (.unary node operator e) (.unary node' operator e') := by
  intro extra index index'
  cases operator with
  | increment | decrement =>
    show Pairs extra (stepOf ctx.scope _ _ e _ index) (stepOf ctx'.scope _ _ e' _ index')
    rw [hctx.scope]
    exact pairs_stepOf _ _ _ hlike _ _ _ _
  | _ => exact (he extra index index').andThen (pairs_apply _ _ _ _ _)

theorem alike_binary (operator : BinaryOperator)
    (number : ctx.bound.Agrees ctx'.bound node.id node'.id)
    (hleft : ExpressionsAlike ctx ctx' left left')
    (hright : ExpressionsAlike ctx ctx' right right') :
    ExpressionsAlike ctx ctx' (.binary node operator left right)
      (.binary node' operator left' right') := by
  intro extra index index'
  show Pairs extra (fun s => expression ctx index (.binary node operator left right) s)
    (fun s => expression ctx' index' (.binary node' operator left' right') s)
  simp only [expression, Generate.operation?_of_agrees number]
  cases ctx'.bound.operation? node' with
  | none => exact .skip
  | some operation =>
    exact (hleft _ _ _).andThen ((hright _ _ _).andThen (pairs_applyAll _ _ _ _ _))

theorem alike_assign {same : Nat → Nat → Prop} (hctx : ctx.Alike ctx')
    (operator : Option BinaryOperator) (number : ctx.bound.Agrees ctx'.bound node.id node'.id)
    (hleft : left.Like same left') (hright : ExpressionsAlike ctx ctx' right right') :
    ExpressionsAlike ctx ctx' (.assign node operator left right)
      (.assign node' operator left' right') := by
  intro extra index index'
  show Pairs extra (fun s => expression ctx index (.assign node operator left right) s)
    (fun s => expression ctx' index' (.assign node' operator left' right') s)
  cases hleft with
  | name _ =>
    cases operator with
    | none =>
      simp only [expression, hctx.scope]
      exact (pairs_push _ _ _).andThen ((hright _ _ _).andThen (pairs_store _ _ _ _ _ _))
    | some operator =>
      simp only [expression, hctx.scope, Generate.operation?_of_agrees number]
      cases ctx'.bound.operation? node' with
      | none => exact .skip
      | some operation =>
        exact (pairs_push _ _ _).andThen ((pairs_load ctx.scope _ _ _).andThen
          ((hright _ _ _).andThen
            ((pairs_applyAll _ _ _ _ _).andThen (pairs_store _ _ _ _ _ _))))
  | _ => exact .skip

theorem alike_call (hctx : ctx.Alike ctx') {arguments arguments' : List Expression}
    (number : ctx.bound.Agrees ctx'.bound node.id node'.id) (he : ExpressionsAlike ctx ctx' e e')
    (harguments : Pairs [] (expressions ctx 0 arguments) (expressions ctx' 0 arguments')) :
    ExpressionsAlike ctx ctx' (.call node e arguments) (.call node' e' arguments') := by
  intro extra index index'
  refine (he extra index index').andThen (pairs_pop fun slot slot' hslot => ?_)
  rw [Generate.parameters_of_agrees number]
  exact pairs_arguments hctx harguments hslot _ _ _

theorem alike_member {label label' : Name} (text : label.text = label'.text)
    (he : ExpressionsAlike ctx ctx' e e') :
    ExpressionsAlike ctx ctx' (.member node e label) (.member node' e' label') := by
  intro extra index index'
  refine (he extra index index').andThen ?_
  rw [text]
  exact (pairs_push (.string label'.text) _ _).andThen (pairs_select _ _ _ _)

end Cases

theorem alike_entryFlow (part part' : Context → State → Flow) (hctx : ctx.Alike ctx')
    (h : ∀ scope, Pairs [] (part { ctx with scope }) (part' { ctx' with scope })) (world : World) :
    (world.Reported → (entryFlow part ctx world).state.world.Reported) ∧
      ∀ world', world.Alike world' → (entryFlow part ctx world).state.world.Reported ∨
        (entryFlow part ctx world).Alike [] (entryFlow part' ctx' world') := by
  refine ⟨fun hworld => (h _).keeps _ hworld, fun world' hworld => ?_⟩
  unfold entryFlow
  rw [hctx.scope, hworld.snd_inner]
  exact (h _).pairs _ _ ⟨hworld.inner ctx.scope, rfl⟩

theorem alike_entry {key key' value value' : Expression} {rest rest' : List (Expression × Expression)}
    (hctx : ctx.Alike ctx') (hkey : ∀ scope, Pairs [] (keyFlow { ctx with scope } key)
      (keyFlow { ctx' with scope } key'))
    (hvalue : ∀ scope, ExpressionsAlike { ctx with scope } { ctx' with scope } value value')
    (hrest : EntriesAlike (properties ctx rest) (properties ctx' rest')) :
    EntriesAlike (properties ctx ((key, value) :: rest))
      (properties ctx' ((key', value') :: rest')) := by
  have hfirst := alike_entryFlow (keyFlow · key ·) (keyFlow · key' ·) hctx hkey
  have hsecond := alike_entryFlow (expression · 0 value ·) (expression · 0 value' ·) hctx
    fun scope => hvalue scope [] 0 0
  refine ⟨fun world hworld => ?_, fun world world' hworld => ?_⟩
  · rw [properties_cons ctx key value rest world rfl rfl]
    exact hrest.keeps _ ((hsecond _).1 ((hfirst world).1 hworld))
  · rw [properties_cons ctx key value rest world rfl rfl,
      properties_cons ctx' key' value' rest' world' rfl rfl]
    obtain hreported | hkeys := (hfirst world).2 world' hworld
    · exact .inl (hrest.keeps _ ((hsecond _).1 hreported))
    obtain hreported | hvalues := (hsecond _).2 _ hkeys.world
    · exact .inl (hrest.keeps _ hreported)
    obtain hreported | ⟨hpairs, hlast⟩ := hrest.pairs _ _ hvalues.world
    · exact .inl hreported
    · refine .inr ⟨?_, hlast⟩
      rw [hkeys.value, hvalues.value, hpairs]

theorem pairs_keyFlow {same : Nat → Nat → Prop} {key key' : Expression} (hlike : key.Like same key')
    (hkey : ExpressionsAlike ctx ctx' key key') :
    Pairs extra (keyFlow ctx key) (keyFlow ctx' key') := by
  have hplain := hkey extra 0 0
  cases hlike with
  | name _ => exact pairs_push _ _ _
  | _ => exact hplain

mutual

theorem alike_expression : (e : Expression) → ∀ {e' : Expression} {ctx ctx' : Context},
    ctx.Alike ctx' → e.Like (ctx.bound.Agrees ctx'.bound) e' → ExpressionsAlike ctx ctx' e e'
  | .literal _ _, _, _, _, _, .literal _ => fun _ _ _ => pairs_push _ _ _
  | .name _ name, _, _, _, hctx, .name _ => alike_name hctx name
  | .paren _ inner, _, _, _, hctx, .paren _ inside => by
    have hinner := alike_expression inner hctx inside
    exact hinner
  | .unary _ operator operand, _, _, _, hctx, .unary _ inside =>
    alike_unary hctx operator inside (alike_expression operand hctx inside)
  | .binary _ operator left right, _, _, _, hctx, .binary number first second =>
    alike_binary operator number (alike_expression left hctx first)
      (alike_expression right hctx second)
  | .assign _ operator _ value, _, _, _, hctx, .assign number first second =>
    alike_assign hctx operator number first (alike_expression value hctx second)
  | .object _ entries, _, _, _, hctx, .object _ inside =>
    fun _ _ _ => (alike_properties entries hctx inside).pairs_object _ _
  | .call _ callee arguments, _, _, _, hctx, .call number first others =>
    alike_call hctx number (alike_expression callee hctx first)
      (pairs_expressions arguments [] 0 0 hctx others)
  | .member _ inner _, _, _, _, hctx, .member _ inside text =>
    alike_member text (alike_expression inner hctx inside)
  | .element _ inner key, _, _, _, hctx, .element _ first second =>
    fun extra index index' => (alike_expression inner hctx first extra index index').andThen
      ((alike_expression key hctx second extra _ _).andThen (pairs_select _ _ _ _))
  | .hole _, _, _, _, _, .hole _ => fun _ _ _ => .skip
termination_by structural e => e

theorem pairs_expressions : (es : List Expression) → ∀ {es' : List Expression} {ctx ctx' : Context}
    (extra : List Value) (index index' : Nat), ctx.Alike ctx' →
    Expression.ListLike (ctx.bound.Agrees ctx'.bound) es es' →
    Pairs extra (expressions ctx index es) (expressions ctx' index' es')
  | [], _, _, _, _, _, _, _, .nil => .skip
  | e :: rest, _, _, _, extra, index, index', hctx, .cons head tail =>
    (alike_expression e hctx head extra index index').andThen
      (pairs_expressions rest extra _ _ hctx tail)
termination_by structural es => es

theorem alike_properties : (entries : List (Expression × Expression)) →
    ∀ {entries' : List (Expression × Expression)} {ctx ctx' : Context}, ctx.Alike ctx' →
    Expression.EntriesLike (ctx.bound.Agrees ctx'.bound) entries entries' →
    EntriesAlike (properties ctx entries) (properties ctx' entries')
  | [], _, _, _, _, .nil => ⟨fun _ hs => hs, fun _ _ hs => .inr ⟨rfl, hs⟩⟩
  | (key, value) :: rest, _, _, _, hctx, .cons first second tail =>
    alike_entry hctx
      (fun scope => pairs_keyFlow first (alike_expression key (hctx.inner scope) first))
      (fun scope => alike_expression value (hctx.inner scope) second)
      (alike_properties rest hctx tail)
termination_by structural entries => entries

end

theorem pairs_optional (hctx : ctx.Alike ctx') {value value' : Option Expression}
    (h : Statement.OptionalLike (ctx.bound.Agrees ctx'.bound) value value') (index index' : Nat)
    (origin origin' : Span) :
    Pairs extra (optional ctx index value origin) (optional ctx' index' value' origin') := by
  cases h with
  | none => exact pairs_push _ _ _
  | some inside => exact alike_expression _ hctx inside extra index index'

theorem State.Alike.declareRoutine {s s' : State} (h : s.Alike extra s') {routine routine' : Routine}
    (hroutine : routine.Alike routine') :
    (declareRoutine s routine).Alike extra (declareRoutine s' routine') := by
  have hpushed : State.Alike extra { s with world.routines := s.world.routines.push routine }
      { s' with world.routines := s'.world.routines.push routine' } :=
    ⟨h.world.push hroutine, h.stack⟩
  unfold Direct.declareRoutine
  rw [hroutine.name, hroutine.scope, h.world.size]
  exact hpushed.assign _ _ _

def StatementsAlike (ctx ctx' : Context) (st st' : Statement) : Prop :=
  ∀ (extra : List Value) (index index' : Nat),
    Pairs extra (statement ctx index st) (statement ctx' index' st')

section Cases

variable {node node' : Node} {condition condition' : Expression} {body body' : Statement}

theorem alike_letDecl (hctx : ctx.Alike ctx') (isMutable : Bool) {name name' : Name}
    (text : name.text = name'.text) (type type' : Option TypeRef)
    {initial initial' : Option Expression}
    (inside : Statement.OptionalLike (ctx.bound.Agrees ctx'.bound) initial initial') :
    StatementsAlike ctx ctx' (.letDecl node isMutable name type initial)
      (.letDecl node' isMutable name' type' initial') := by
  intro extra index index'
  show Pairs extra (fun s => statement ctx index (.letDecl node isMutable name type initial) s)
    (fun s => statement ctx' index' (.letDecl node' isMutable name' type' initial') s)
  simp only [statement, text, hctx.scope]
  exact (pairs_push _ _ _).andThen
    ((pairs_optional hctx inside _ _ _ _).andThen (pairs_store _ _ _ _ _ _))

theorem alike_fnDecl (hctx : ctx.Alike ctx') {name name' : Name} (text : name.text = name'.text)
    {parameters parameters' : List Parameter}
    (taken : parameters.map Parameter.bare = parameters'.map Parameter.bare)
    (result result' : Option TypeRef) {statements statements' : List Statement}
    (inside : Statement.ListLike (ctx.bound.Agrees ctx'.bound) statements statements') :
    StatementsAlike ctx ctx' (.fnDecl node name parameters result statements)
      (.fnDecl node' name' parameters' result' statements') := by
  intro extra index index'
  refine .next (fun _ hs => hs) fun s s' hs => hs.declareRoutine ?_
  exact ⟨text.symm, (Parameter.texts_of_bare taken).symm, hctx.scope, inside⟩

theorem alike_block (hctx : ctx.Alike ctx') {inside inside' : List Statement}
    (h : ∀ (scope : Nat) (extra : List Value) (index index' : Nat),
      Pairs extra (statements { ctx with scope } index inside)
        (statements { ctx' with scope } index' inside')) :
    StatementsAlike ctx ctx' (.block node inside) (.block node' inside') := by
  intro extra index index'
  refine ⟨fun s hs => (h _ extra _ 0).keeps _ hs, fun s s' hs => ?_⟩
  simp only [statement, hctx.scope, hs.world.snd_inner]
  exact (h _ extra _ _).pairs _ _ ⟨hs.world.inner ctx.scope, hs.stack⟩

theorem pairs_branch {taken taken' other other' : State → Flow} {index index' : Nat}
    {origin origin' : Span} (htaken : Pairs extra taken taken') (hother : Pairs extra other other') :
    Pairs extra
      (fun s => pop index origin s fun slot s =>
        match slot.value.toBool with
        | .ok true => taken s
        | .ok false => other s
        | .error error => other (s.report (.coercion error) slot.origin))
      (fun s => pop index' origin' s fun slot s =>
        match slot.value.toBool with
        | .ok true => taken' s
        | .ok false => other' s
        | .error error => other' (s.report (.coercion error) slot.origin)) := by
  refine pairs_pop fun slot slot' hslot => ?_
  rw [hslot]
  cases slot.value.toBool with
  | ok truth =>
    cases truth with
    | true => exact htaken
    | false => exact hother
  | error error => exact .of_reported fun s => hother.keeps _ (reported_report s _ _)

theorem pairs_giveBack :
    Pairs extra (fun s => .ended (some s.top) { s with stack := s.stack.tail })
      (fun s => .ended (some s.top) { s with stack := s.stack.tail }) := by
  refine ⟨fun _ hs => hs, fun s s' hs => .inr (.gives hs.world fun hextra => ?_)⟩
  have hvalues : s'.stack.map (·.value) = s.stack.map (·.value) := by
    rw [hs.stack, hextra, List.append_nil]
  refine ⟨State.top_of_values hvalues, ?_⟩
  rw [List.map_tail, List.map_tail, hvalues]

end Cases

mutual

theorem alike_statement : (st : Statement) → ∀ {st' : Statement} {ctx ctx' : Context},
    ctx.Alike ctx' → st.Like (ctx.bound.Agrees ctx'.bound) st' → StatementsAlike ctx ctx' st st'
  | .expression _ e, _, _, _, hctx, .expression _ inside => alike_expression e hctx inside
  | .letDecl _ isMutable _ _ _, _, _, _, hctx, .letDecl _ text _ inside =>
    alike_letDecl hctx isMutable text _ _ inside
  | .fnDecl _ _ _ _ _, _, _, _, hctx, .fnDecl _ text taken _ inside =>
    alike_fnDecl hctx text taken _ _ inside
  | .block _ body, _, _, _, hctx, .block _ inside =>
    alike_block hctx fun scope extra index index' =>
      pairs_statements body extra index index' (hctx.inner scope) inside
  | .branch _ condition body none, _, _, _, hctx, .branch _ tested taken =>
    fun extra index index' => (alike_expression condition hctx tested extra index index').andThen
      (pairs_branch (alike_statement body hctx taken extra _ _) .skip)
  | .branch _ condition body (some other), _, _, _, hctx, .branchElse _ tested taken otherwise =>
    fun extra index index' => (alike_expression condition hctx tested extra index index').andThen
      (pairs_branch (alike_statement body hctx taken extra _ _)
        (alike_statement other hctx otherwise extra _ _))
  | .giveBack _ _, _, _, _, hctx, .giveBack _ inside =>
    fun _ _ _ => (pairs_optional hctx inside _ _ _ _).andThen pairs_giveBack
  | .hole _, _, _, _, _, .hole _ => fun _ _ _ => .skip
termination_by structural st => st

theorem pairs_statements : (body : List Statement) → ∀ {body' : List Statement} {ctx ctx' : Context}
    (extra : List Value) (index index' : Nat), ctx.Alike ctx' →
    Statement.ListLike (ctx.bound.Agrees ctx'.bound) body body' →
    Pairs extra (statements ctx index body) (statements ctx' index' body')
  | [], _, _, _, _, _, _, _, .nil => .skip
  | st :: rest, _, _, _, extra, index, index', hctx, .cons head tail =>
    (alike_statement st hctx head extra index index').andThen
      (pairs_statements rest extra _ _ hctx tail)
termination_by structural body => body

end

theorem Routine.Alike.refl (routine : Routine) : routine.Alike routine :=
  ⟨rfl, rfl, rfl, Statement.listLike_of_bare _ _ rfl fun _ _ => rfl⟩

theorem World.Alike.refl {world : World} (h : world.log.toList = []) : world.Alike world := by
  refine ⟨rfl, rfl, fun id => ?_, h, h⟩
  cases world.routines[id]? with
  | none => exact .none
  | some routine => exact .some (.refl routine)

theorem bodiesAlike (maxCallDepth budget : Nat) :
    BodiesAlike (body? maxCallDepth budget) (body? maxCallDepth budget) := by
  induction budget with
  | zero => exact .none
  | succ budget ih =>
    have hrun : ∀ (routine routine' : Routine) (scope scope' : Nat), routine.Alike routine' →
        scope' = scope → Pairs []
          (statements ⟨routine.bound, scope, maxCallDepth, body? maxCallDepth budget⟩ 0 routine.body)
          (statements ⟨routine'.bound, scope', maxCallDepth, body? maxCallDepth budget⟩ 0
            routine'.body) :=
      fun routine _ _ _ hroutine hscope =>
        pairs_statements routine.body [] 0 0 ⟨hscope, ih⟩ hroutine.body
    refine .some ⟨fun routine scope world hworld => ?_, ?_⟩
    · exact (hrun routine routine scope scope (.refl routine) rfl).keeps _ hworld
    · intro routine routine' scope scope' world world' hroutine hscope hworld
      obtain hreported | halike := (hrun routine routine' scope scope' hroutine hscope).pairs
        { world } { world := world' } ⟨hworld, rfl⟩
      · exact .inl hreported
      · exact .inr ⟨halike.value, halike.world⟩

end StackScript.Direct
