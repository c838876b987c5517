import StackScript.Code.Generate
import StackScript.Proofs.Binding.Globals
import StackScript.Proofs.Binding.Verdicts
import StackScript.Proofs.Tree.Names

set_option autoImplicit false

/-!
# The parameters recorded at calls

Main statement: `Globals.exists_visit_of_call`. At a call of a name the parameters are recorded of
the function that the name stands for when the walk comes to the call, and none at other calls. That
function is one of this name that the program declares or that was known before it; which of them,
the place of the call in the text decides.
-/
namespace StackScript

/-- The name is known as that of a function with these parameters. -/
def Globals.Knows (globals : Globals) (x : String) (names : List String) : Prop :=
  ∃ declaration signature, globals.get? x = some declaration ∧
    declaration.signature = some signature ∧ signature.parameters.map (·.1) = names

/-- A function with these parameters is known by some name. -/
def Globals.Declares (globals : Globals) (names : List String) : Prop :=
  ∃ name declaration signature, globals.get? name = some declaration ∧
    declaration.signature = some signature ∧ signature.parameters.map (·.1) = names

namespace Globals

theorem Knows.of_insert {globals : Globals} {name x : String} {declaration : Declaration}
    {names : List String} (h : Globals.Knows (globals.insert name declaration) x names) :
    globals.Knows x names ∨
      x = name ∧ ∃ signature ∈ declaration.signature, signature.parameters.map (·.1) = names := by
  obtain ⟨found, signature, hfound, hsignature, hnames⟩ := h
  rw [NameTable.get?_insert] at hfound
  split at hfound
  · rename_i hx
    obtain rfl := Option.some.inj hfound
    exact .inr ⟨hx, signature, hsignature, hnames⟩
  · exact .inl ⟨found, signature, hfound, hsignature, hnames⟩

theorem not_knows_empty (x : String) (names : List String) : ¬ Globals.Knows .empty x names :=
  fun ⟨declaration, signature, hget, _⟩ => by simp [NameTable.empty, NameTable.get?] at hget

theorem not_knows_parameters (types : List (String × StaticType)) (x : String)
    (names : List String) :
    ¬ Globals.Knows (.ofList (types.map fun (name, type) =>
      (name, ({ type, isMutable := true } : Declaration)))) x names := by
  have hfold : ∀ table : Globals, ¬ table.Knows x names →
      ¬ Globals.Knows ((types.map fun (name, type) =>
        (name, ({ type, isMutable := true } : Declaration))).foldl
          (fun table entry => table.insert entry.1 entry.2) table) x names := by
    induction types with
    | nil => exact fun _ htable => htable
    | cons first rest ih =>
      refine fun table htable => ih _ fun hknows => ?_
      obtain hold | ⟨-, signature, hsignature, -⟩ := hknows.of_insert
      · exact htable hold
      · simp at hsignature
  exact hfold .empty (not_knows_empty x names)

end Globals

variable {P : String → List String → Prop}

/-- The functions known in the open scopes keep to `P`. -/
def Binder.Keeps (P : String → List String → Prop) (b : Binder) : Prop :=
  ∀ scope ∈ b.scopes, ∀ x names, Globals.Knows scope x names → P x names

theorem Binder.Keeps.parametersOf {b : Binder} (h : b.Keeps P) (callee : Expression) :
    b.parametersOf callee = [] ∨
      ∃ node x, callee = .name node x ∧ P x (b.parametersOf callee) := by
  cases callee with
  | name node x =>
    unfold Binder.parametersOf
    split
    · rename_i signature hsignature
      obtain ⟨declaration, hfound, hsignature⟩ := Option.bind_eq_some_iff.mp hsignature
      obtain ⟨scope, hscope, hget⟩ := List.exists_of_findSome?_eq_some hfound
      exact .inr ⟨node, x, rfl,
        h scope hscope x _ ⟨declaration, signature, hget, hsignature, rfl⟩⟩
    · exact .inl rfl
  | _ => exact .inl rfl

namespace BindM

variable {α β : Type}

def Maintains (P : String → List String → Prop) (action : BindM α) : Prop :=
  ∀ b : Binder, b.Keeps P → (after action b).Keeps P

theorem KeepsScopes.maintains {action : BindM α} (h : KeepsScopes action) : Maintains P action := by
  intro b hb scope hscope
  have hscopes : (after action b).scopes = b.scopes := h b
  exact hb scope (hscopes ▸ hscope)

theorem Maintains.bind {action : BindM α} {f : α → BindM β} (h : Maintains P action)
    (hf : ∀ x, Maintains P (f x)) : Maintains P (action >>= f) :=
  fun b hb => hf (action.run b).1 (after action b) (h b hb)

theorem maintains_declare {name : String} {declaration : Declaration}
    (hdeclaration : ∀ signature ∈ declaration.signature,
      P name (signature.parameters.map (·.1))) : Maintains P (declare name declaration) := by
  intro b hb
  obtain ⟨scopes, results, bound, diagnostics⟩ := b
  cases scopes with
  | nil => exact hb
  | cons scope outer =>
    intro other hother x names hknows
    obtain rfl | houter := List.mem_cons.mp hother
    · obtain hold | ⟨rfl, signature, hsignature, rfl⟩ := hknows.of_insert
      · exact hb scope List.mem_cons_self x names hold
      · exact hdeclaration signature hsignature
    · exact hb other (List.mem_cons_of_mem _ houter) x names hknows

theorem maintains_openScope {scope : NameTable Declaration}
    (hscope : ∀ x names, ¬ Globals.Knows scope x names) : Maintains P (openScope scope) := by
  intro b hb other hother x names hknows
  obtain rfl | houter := List.mem_cons.mp hother
  · exact absurd hknows (hscope x names)
  · exact hb other houter x names hknows

theorem maintains_closeScope : Maintains P closeScope :=
  fun _ hb scope hscope => hb scope (List.mem_of_mem_tail hscope)

theorem maintains_openFunction (result : Option StaticType) :
    Maintains P (openFunction result) :=
  fun _ hb => hb

theorem maintains_closeFunction : Maintains P closeFunction := fun _ hb => hb

theorem maintains_letDeclaration (isMutable : Bool) (name : Name) (type : Option TypeRef)
    (initial : Option Expression) : Maintains P (letDeclaration isMutable name type initial) := by
  have hdeclare : ∀ type, Maintains P (declare name.text { type, isMutable }) :=
    fun type => maintains_declare (by simp)
  have htype := (keeps_resolveType? type).maintains (P := P)
  unfold letDeclaration
  cases initial with
  | none => exact fun b hb => (htype.bind fun _ => hdeclare _) b hb
  | some e =>
    refine ((keeps_expression e).map some).maintains.bind fun value => htype.bind fun annotated => ?_
    cases value with
    | none => exact hdeclare _
    | some actual =>
      cases annotated with
      | none => exact hdeclare _
      | some expected => exact (keeps_checkAssignable _ _ _).maintains.bind fun _ => hdeclare _

theorem names_parameterTypes (parameters : List Parameter) (b : Binder) :
    ((parameterTypes parameters).run b).1.map (·.1) = parameters.map (·.name.text) := by
  induction parameters generalizing b with
  | nil => rfl
  | cons parameter rest ih =>
    exact congrArg (parameter.name.text :: ·) (ih (after (resolveType? parameter.type) b))

theorem maintains_enterFunction {name : Name} {parameters : List Parameter}
    (h : P name.text (parameters.map (·.name.text))) (result : Option TypeRef) :
    Maintains P (enterFunction name parameters result) := by
  intro b hb
  have htypes := names_parameterTypes parameters b
  have hrest : Maintains P (do
      let resultType ← resolveType? result
      declare name.text {
        type := .function
        isMutable := false
        signature := some {
          parameters := ((parameterTypes parameters).run b).1
          result := resultType.getD .any } }
      openScope (.ofList (((parameterTypes parameters).run b).1.map fun (name, type) =>
        (name, { type, isMutable := true })))
      openFunction resultType) := by
    refine (keeps_resolveType? result).maintains.bind fun resultType =>
      (maintains_declare fun signature hsignature => ?_).bind fun _ =>
        (maintains_openScope (Globals.not_knows_parameters _)).bind fun _ =>
          maintains_openFunction _
    obtain rfl := Option.some.inj hsignature
    exact htypes ▸ h
  exact hrest _ ((keeps_parameterTypes parameters).maintains b hb)

mutual

theorem maintains_statement : (s : Statement) → (∀ f ∈ s.functions, P f.1 f.2) →
    Maintains P (statement s)
  | .expression _ e, _ => ((keeps_expression e).bind fun _ => .pure ()).maintains
  | .letDecl _ isMutable name type initial, _ =>
    maintains_letDeclaration isMutable name type initial
  | .fnDecl node name parameters result body, h => by
    have hbody := maintains_statements body fun f hf => h f (List.mem_cons_of_mem _ hf)
    rw [statement_fnDecl]
    exact (maintains_enterFunction (h _ List.mem_cons_self) result).bind fun _ =>
      hbody.bind fun _ => maintains_closeFunction.bind fun _ => maintains_closeScope
  | .block _ body, h =>
    (maintains_openScope Globals.not_knows_empty).bind fun _ =>
      (maintains_statements body h).bind fun _ => maintains_closeScope
  | .branch _ condition body none, h => by
    have hbody := maintains_statement body fun f hf => h f (List.mem_append_left _ hf)
    exact (keeps_expression condition).maintains.bind fun _ => hbody.bind fun _ =>
      (KeepsScopes.pure ()).maintains
  | .branch _ condition body (some other), h => by
    have hbody := maintains_statement body fun f hf => h f (List.mem_append_left _ hf)
    have hother := maintains_statement other fun f hf => h f (List.mem_append_right _ hf)
    exact (keeps_expression condition).maintains.bind fun _ => hbody.bind fun _ => hother
  | .giveBack node value, _ => by
    cases value with
    | none => exact (keeps_checkResult _ _).maintains
    | some e => exact ((keeps_expression e).bind fun _ => keeps_checkResult _ _).maintains
  | .hole _, _ => (KeepsScopes.pure ()).maintains
termination_by structural s => s

theorem maintains_statements : (ss : List Statement) →
    (∀ f ∈ Statement.listFunctions ss, P f.1 f.2) → Maintains P (statements ss)
  | [], _ => (KeepsScopes.pure ()).maintains
  | s :: rest, h =>
    (maintains_statement s fun f hf => h f (List.mem_append_left _ hf)).bind fun _ =>
      maintains_statements rest fun f hf => h f (List.mem_append_right _ hf)
termination_by structural ss => ss

end

def SameScopes (b : Binder) (visits : List Visit) : Prop := ∀ visit ∈ visits, visit.2.scopes = b.scopes

namespace SameScopes

variable {b : Binder} {vs vs' : List Visit}

theorem nil : SameScopes b [] := fun _ h => absurd h List.not_mem_nil

theorem cons (e : Expression) (h : SameScopes b vs) : SameScopes b ((e, b) :: vs) := by
  intro visit hvisit
  obtain rfl | hrest := List.mem_cons.mp hvisit
  · rfl
  · exact h visit hrest

theorem append {action : BindM α} (h : SameScopes b vs) (haction : KeepsScopes action)
    (h' : SameScopes (after action b) vs') : SameScopes b (vs ++ vs') := by
  intro visit hvisit
  obtain hfirst | hsecond := List.mem_append.mp hvisit
  · exact h visit hfirst
  · exact (h' visit hsecond).trans (haction b)

end SameScopes

mutual

theorem sameScopes_visits : (e : Expression) → (b : Binder) → SameScopes b (visits e b)
  | .literal _ _, _ => .cons _ .nil
  | .name _ _, _ => .cons _ .nil
  | .paren _ inner, b => .cons _ (sameScopes_visits inner b)
  | .unary _ _ operand, b => .cons _ (sameScopes_visits operand b)
  | .binary _ _ left right, b =>
    .cons _ ((sameScopes_visits left b).append (keeps_expression left) (sameScopes_visits right _))
  | .assign _ _ target value, b => by
    have hvalue := sameScopes_visits value b
    have htarget := sameScopes_visits target
    have hreported := (keeps_expression value).bind fun _ => keeps_report .invalidTarget target.span
    cases target with
    | name targetNode name => exact hvalue.cons _
    | _ => exact (hvalue.append hreported (htarget _)).cons _
  | .object _ properties, b => .cons _ (sameScopes_propertyVisits properties b)
  | .call _ callee arguments, b =>
    .cons _ ((sameScopes_visits callee b).append (keeps_expression callee)
      (sameScopes_listVisits arguments _))
  | .member _ inner _, b => .cons _ (sameScopes_visits inner b)
  | .element _ inner index, b =>
    .cons _ ((sameScopes_visits inner b).append (keeps_expression inner) (sameScopes_visits index _))
  | .hole _, _ => .cons _ .nil
termination_by structural e => e

theorem sameScopes_listVisits : (es : List Expression) → (b : Binder) →
    SameScopes b (listVisits es b)
  | [], _ => .nil
  | e :: rest, b =>
    (sameScopes_visits e b).append (keeps_expression e) (sameScopes_listVisits rest _)
termination_by structural es => es

theorem sameScopes_propertyVisits : (entries : List (Expression × Expression)) → (b : Binder) →
    SameScopes b (propertyVisits entries b)
  | [], _ => .nil
  | (key, value) :: rest, b => by
    have hkey := sameScopes_visits key b
    have hrest : ∀ b, SameScopes b
        (visits value b ++ propertyVisits rest (after (expression value) b)) := fun b =>
      (sameScopes_visits value b).append (keeps_expression value) (sameScopes_propertyVisits rest _)
    cases key with
    | name keyNode name => exact hrest b
    | _ => exact hkey.append (keeps_expression _) (hrest _)
termination_by structural entries => entries

end

def VisitsKeep (P : String → List String → Prop) (visits : List Visit) : Prop :=
  ∀ visit ∈ visits, visit.2.Keeps P

theorem VisitsKeep.append {vs vs' : List Visit} (h : VisitsKeep P vs) (h' : VisitsKeep P vs') :
    VisitsKeep P (vs ++ vs') :=
  fun visit hvisit => (List.mem_append.mp hvisit).elim (h visit) (h' visit)

theorem visitsKeep_expression (e : Expression) {b : Binder} (hb : b.Keeps P) :
    VisitsKeep P (visits e b) := by
  intro visit hvisit scope hscope
  rw [sameScopes_visits e b visit hvisit] at hscope
  exact hb scope hscope

theorem visitsKeep_optional (value : Option Expression) {b : Binder} (hb : b.Keeps P) :
    VisitsKeep P (optionalVisits value b) := by
  cases value with
  | none => exact fun _ h => absurd h List.not_mem_nil
  | some e => exact visitsKeep_expression e hb

mutual

theorem visitsKeep_statement : (s : Statement) → (∀ f ∈ s.functions, P f.1 f.2) →
    {b : Binder} → b.Keeps P → VisitsKeep P (statementVisits s b)
  | .expression _ e, _, _, hb => visitsKeep_expression e hb
  | .letDecl _ _ _ _ initial, _, _, hb => visitsKeep_optional initial hb
  | .fnDecl _ name parameters result body, h, b, hb =>
    visitsKeep_statements body (fun f hf => h f (List.mem_cons_of_mem _ hf))
      (maintains_enterFunction (h _ List.mem_cons_self) result b hb)
  | .block _ body, h, b, hb =>
    visitsKeep_statements body h (maintains_openScope Globals.not_knows_empty b hb)
  | .branch _ condition body none, h, b, hb => by
    have hbehind := (keeps_expression condition).maintains b hb
    have hbody := visitsKeep_statement body (fun f hf => h f (List.mem_append_left _ hf)) hbehind
    exact (visitsKeep_expression condition hb).append
      (hbody.append fun _ hvisit => absurd hvisit List.not_mem_nil)
  | .branch _ condition body (some other), h, b, hb => by
    have hbehind := (keeps_expression condition).maintains b hb
    have hfirst : ∀ f ∈ body.functions, P f.1 f.2 := fun f hf => h f (List.mem_append_left _ hf)
    have hbody := visitsKeep_statement body hfirst hbehind
    have hother := visitsKeep_statement other (fun f hf => h f (List.mem_append_right _ hf))
      (maintains_statement body hfirst _ hbehind)
    exact (visitsKeep_expression condition hb).append (hbody.append hother)
  | .giveBack _ value, _, _, hb => visitsKeep_optional value hb
  | .hole _, _, _, _ => fun _ h => absurd h List.not_mem_nil
termination_by structural s => s

theorem visitsKeep_statements : (ss : List Statement) →
    (∀ f ∈ Statement.listFunctions ss, P f.1 f.2) → {b : Binder} → b.Keeps P →
    VisitsKeep P (statementsVisits ss b)
  | [], _, _, _ => fun _ h => absurd h List.not_mem_nil
  | s :: rest, h, b, hb => by
    have hs : ∀ f ∈ s.functions, P f.1 f.2 := fun f hf => h f (List.mem_append_left _ hf)
    exact (visitsKeep_statement s hs hb).append
      (visitsKeep_statements rest (fun f hf => h f (List.mem_append_right _ hf))
        (maintains_statement s hs b hb))
termination_by structural ss => ss

end

end BindM

/-- The functions that the program declares or that were known before it. -/
def SyntaxTree.Offers (tree : SyntaxTree) (globals : Globals) (x : String) (names : List String) :
    Prop :=
  (x, names) ∈ tree.functions ∨ globals.Knows x names

namespace Globals

variable {tree : SyntaxTree}

theorem keeps_start (globals : Globals) :
    ({ scopes := [globals] } : Binder).Keeps (tree.Offers globals) := by
  intro scope hscope x names hknows
  obtain rfl := List.mem_singleton.mp hscope
  exact .inr hknows

theorem offers_of_knows_bind {globals : Globals} {x : String} {names : List String}
    (h : (globals.bind tree).globals.Knows x names) : tree.Offers globals x names := by
  have hlast := BindM.maintains_statements tree.statements (P := tree.Offers globals)
    (fun f hf => .inl hf) _ globals.keeps_start
  obtain ⟨later, hscopes, -⟩ :=
    BindM.declares_statements tree.statements { scopes := [globals] } globals [] rfl
  have hlater : (globals.bind tree).globals = later := by
    change (((BindM.statements tree.statements).run { scopes := [globals] }).2.scopes).getLastD
      .empty = later
    rw [hscopes]
    rfl
  refine hlast later ?_ x names (hlater ▸ h)
  change later ∈ ((BindM.statements tree.statements).run { scopes := [globals] }).2.scopes
  rw [hscopes]
  exact List.mem_cons_self

theorem parameters_of_visit (hids : (Statement.listIds tree.statements).Nodup) (globals : Globals)
    {node : Node} {callee : Expression} {arguments : List Expression} {b : Binder}
    (hvisit : (.call node callee arguments, b) ∈ globals.visits tree) :
    (globals.bind tree).bound.parameters node = b.parametersOf callee := by
  have hlast := (lasts_of_visit hids globals hvisit).nodes node.id
    (Expression.id_mem_ids (.call node callee arguments))
  let called := BindM.after (BindM.expressions arguments)
    (BindM.after (BindM.expression callee) b)
  have hscopes : called.scopes = b.scopes :=
    (BindM.keeps_expressions arguments _).trans (BindM.keeps_expression callee b)
  have hfound : called.parametersOf callee = b.parametersOf callee := by
    simp only [Binder.parametersOf, Binder.signatureOf?, hscopes]
  have hrecorded := BindM.recorded_call node callee ((BindM.expression callee).run b).1
    ((BindM.expressions arguments).run (BindM.after (BindM.expression callee) b)).1 called
  have hnode : (globals.bind tree).bound.node? node.id =
      some (.call (b.parametersOf callee)) := by
    rw [← hfound, ← hrecorded]
    exact hlast
  rw [BoundTree.parameters, hnode]

/-- The walk comes to each call of the program. The parameters that it finds there are recorded, and
they are those of a function on offer if there are any. -/
theorem exists_visit_of_call (hids : (Statement.listIds tree.statements).Nodup) (globals : Globals)
    {node : Node} {callee : Expression} {arguments : List Expression}
    (hcall : .call node callee arguments ∈ tree.expressions) :
    ∃ b, (.call node callee arguments, b) ∈ globals.visits tree ∧
      (globals.bind tree).bound.parameters node = b.parametersOf callee ∧
      b.Keeps (tree.Offers globals) := by
  obtain ⟨_, _, heq⟩ | ⟨b, hvisit⟩ := reached_expressions globals hcall
  · cases heq
  · exact ⟨b, hvisit, parameters_of_visit hids globals hvisit,
      BindM.visitsKeep_statements tree.statements (fun f hf => .inl hf) globals.keeps_start _ hvisit⟩

theorem parameters_of_call (hids : (Statement.listIds tree.statements).Nodup) (globals : Globals)
    {node : Node} {callee : Expression} {arguments : List Expression}
    (hcall : .call node callee arguments ∈ tree.expressions) :
    (globals.bind tree).bound.parameters node = [] ∨ ∃ place x, callee = .name place x ∧
      tree.Offers globals x ((globals.bind tree).bound.parameters node) := by
  obtain ⟨b, -, hfound, hkeeps⟩ := exists_visit_of_call hids globals hcall
  rw [hfound]
  exact hkeeps.parametersOf callee

end Globals

end StackScript
