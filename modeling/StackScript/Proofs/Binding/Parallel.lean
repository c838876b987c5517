import StackScript.Binding.Bind
import StackScript.Proofs.Tree.Likeness

set_option autoImplicit false

/-!
# Binding trees of the same form

Binding does not depend on places, and on the numbers of nodes only in that it records things under
them. So two trees of the same form are bound in the same way, one of them perhaps after other
statements: the declarations are the same, as much is reported, and what is recorded for the one is
recorded for the other under the numbers of its own nodes. Scopes that are opened on the way are
closed again.
-/
namespace StackScript

theorem BoundTree.node?_insert (bound : BoundTree) (id other : Nat) (node : BoundNode) :
    (bound.insert id node).node? other = if id = other then some node else bound.node? other := by
  simp [BoundTree.insert, BoundTree.node?, Std.TreeMap.getElem?_insert]

/-- What two binders that go side by side have around them. -/
structure Passage where
  /-- How far the second one is ahead with the numbers of nodes. -/
  offset : Nat
  /-- The number of nodes of the tree. -/
  limit : Nat
  /-- What the second one recorded before. -/
  before : BoundTree
  /-- The scopes around the innermost one. -/
  outer : List (NameTable Declaration)
  results : List (Option StaticType)

structure Binder.Parallel (w : Passage) (b b' : Binder) : Prop where
  scopes : b'.scopes = b.scopes
  inner : b.scopes ≠ []
  outer : b.scopes.tail = w.outer
  results : b.results = w.results
  results' : b'.results = w.results
  nodes : ∀ id, b'.bound.node? (id + w.offset) = b.bound.node? id
  old : ∀ id < w.offset, b'.bound.node? id = w.before.node? id
  bounded : ∀ id, w.limit ≤ id → b.bound.node? id = none
  reports : b'.diagnostics.size = b.diagnostics.size

namespace BindM

variable {α β : Type} {w : Passage} {Q : α → α → Prop} {R : β → β → Prop}

/-- Side by side, the two actions have results in `Q` and stay side by side. -/
def Pairs (w : Passage) (Q : α → α → Prop) (action action' : BindM α) : Prop :=
  ∀ b b' : Binder, b.Parallel w b' →
    Q (action.run b).1 (action'.run b').1 ∧ (action.run b).2.Parallel w (action'.run b').2

abbrev Agree (w : Passage) (action action' : BindM α) : Prop := Pairs w Eq action action'

namespace Pairs

theorem pure {x x' : α} (h : Q x x') : Pairs w Q (pure x) (pure x') := fun _ _ hb => ⟨h, hb⟩

theorem bind {action action' : BindM α} {f f' : α → BindM β} (h : Pairs w Q action action')
    (hf : ∀ x x', Q x x' → Pairs w R (f x) (f' x')) :
    Pairs w R (action >>= f) (action' >>= f') := by
  intro b b' hb
  obtain ⟨hresult, hstate⟩ := h b b' hb
  exact hf _ _ hresult _ _ hstate

theorem bindSame {action action' : BindM α} {f f' : α → BindM β} (h : Agree w action action')
    (hf : ∀ x, Pairs w R (f x) (f' x)) : Pairs w R (action >>= f) (action' >>= f') :=
  h.bind fun x _ hx => hx ▸ hf x

theorem map {action action' : BindM α} {f : α → β} (h : Agree w action action') :
    Agree w (f <$> action) (f <$> action') :=
  fun b b' hb => ⟨congrArg f (h b b' hb).1, (h b b' hb).2⟩

theorem checked {c : Prop} [Decidable c] {check check' : BindM Unit} {rest rest' : Unit → BindM β}
    (hcheck : Agree w check check') (hrest : Pairs w R (rest ()) (rest' ())) :
    Pairs w R (if c then check >>= rest else rest ()) (if c then check' >>= rest' else rest' ()) := by
  split
  · exact hcheck.bindSame fun _ => hrest
  · exact hrest

end Pairs

theorem agree_report (fault : BindingFault) (span span' : Span) :
    Agree w (report fault span) (report fault span') := by
  refine fun b b' hb => ⟨rfl, { hb with reports := ?_ }⟩
  change (b'.diagnostics.push _).size = (b.diagnostics.push _).size
  rw [Array.size_push, Array.size_push, hb.reports]

theorem agree_lookup (name : String) : Agree w (lookup name) (lookup name) := by
  refine fun b b' hb => ⟨?_, hb⟩
  change b.scopes.findSome? _ = b'.scopes.findSome? _
  rw [hb.scopes]

theorem agree_declare (name : String) (declaration : Declaration) :
    Agree w (declare name declaration) (declare name declaration) := by
  intro b b' hb
  refine ⟨rfl, ?_⟩
  obtain ⟨scopes, results, bound, diagnostics⟩ := b
  obtain ⟨scopes', results', bound', diagnostics'⟩ := b'
  obtain rfl : scopes' = scopes := hb.scopes
  cases scopes' with
  | nil => exact absurd rfl hb.inner
  | cons scope outer =>
    exact ⟨rfl, List.cons_ne_nil _ _, hb.outer, hb.results, hb.results', hb.nodes, hb.old,
      hb.bounded, hb.reports⟩

theorem agree_record {id id' : Nat} (hid : Apart w.offset w.limit id id') (node : BoundNode) :
    Agree w (record id node) (record id' node) := by
  obtain ⟨rfl, hlt⟩ := hid
  intro b b' hb
  refine ⟨rfl, ⟨hb.scopes, hb.inner, hb.outer, hb.results, hb.results', fun other => ?_,
    fun other hother => ?_, fun other hother => ?_, hb.reports⟩⟩
  · change (b'.bound.insert (id + w.offset) node).node? (other + w.offset) =
      (b.bound.insert id node).node? other
    rw [BoundTree.node?_insert, BoundTree.node?_insert, hb.nodes]
    simp only [Nat.add_right_cancel_iff]
  · change (b'.bound.insert (id + w.offset) node).node? other = _
    rw [BoundTree.node?_insert, if_neg (by omega), hb.old other hother]
  · change (b.bound.insert id node).node? other = none
    rw [BoundTree.node?_insert, if_neg (by omega), hb.bounded other hother]

theorem agree_typed (node node' : Node) (type : StaticType) :
    Agree w (typed node type) (typed node' type) :=
  fun _ _ hb => ⟨rfl, hb.scopes, hb.inner, hb.outer, hb.results, hb.results', hb.nodes, hb.old,
    hb.bounded, hb.reports⟩

theorem agree_enclosed {body body' : BindM Unit} (scope : NameTable Declaration)
    (h : ∀ outer, Agree { w with outer } body body') :
    Agree w (openScope scope >>= fun _ => body >>= fun _ => closeScope)
      (openScope scope >>= fun _ => body' >>= fun _ => closeScope) := by
  intro b b' hb
  obtain ⟨-, hclosed⟩ := h b.scopes { b with scopes := scope :: b.scopes }
    { b' with scopes := scope :: b'.scopes }
    { hb with
      scopes := congrArg (scope :: ·) hb.scopes
      inner := List.cons_ne_nil _ _
      outer := rfl }
  refine ⟨rfl, { hclosed with scopes := ?_, inner := ?_, outer := ?_ }⟩
  · exact congrArg List.tail hclosed.scopes
  · exact fun hnil => hb.inner (hclosed.outer.symm.trans hnil)
  · exact (congrArg List.tail hclosed.outer).trans hb.outer

theorem agree_inFunction {body body' : BindM Unit} (result : Option StaticType)
    (h : ∀ results, Agree { w with results } body body') :
    Agree w (openFunction result >>= fun _ => body >>= fun _ => closeFunction)
      (openFunction result >>= fun _ => body' >>= fun _ => closeFunction) := by
  intro b b' hb
  obtain ⟨-, hclosed⟩ := h (result :: w.results) { b with results := result :: b.results }
    { b' with results := result :: b'.results }
    { hb with
      results := congrArg (result :: ·) hb.results
      results' := congrArg (result :: ·) hb.results' }
  exact ⟨rfl, { hclosed with
    results := congrArg List.tail hclosed.results
    results' := congrArg List.tail hclosed.results' }⟩

theorem agree_checkAssignable (actual expected : StaticType) (span span' : Span) :
    Agree w (checkAssignable actual expected span) (checkAssignable actual expected span') := by
  unfold checkAssignable
  split
  · exact agree_report _ _ _
  · exact .pure rfl

theorem agree_checkIndexable (type : StaticType) (span span' : Span) :
    Agree w (checkIndexable type span) (checkIndexable type span') := by
  unfold checkIndexable
  split
  · exact agree_report _ _ _
  · exact .pure rfl

theorem agree_checkStepTarget {target target' : Expression}
    (h : target.Like (Apart w.offset w.limit) target') :
    Agree w (checkStepTarget target) (checkStepTarget target') := by
  cases h with
  | name number =>
    refine (agree_lookup _).bindSame fun found => ?_
    cases found with
    | none => exact .pure rfl
    | some declaration =>
      dsimp only
      split
      · exact agree_report _ _ _
      · exact .pure rfl
  | _ => exact agree_report _ _ _

theorem agree_bindBinary {node node' : Node} (hnode : Apart w.offset w.limit node.id node'.id)
    (operator : BinaryOperator) (left right : StaticType) :
    Agree w (bindBinary node operator left right) (bindBinary node' operator left right) := by
  unfold bindBinary
  split
  · exact (agree_record hnode _).bindSame fun _ => .pure rfl
  · exact (agree_report _ _ _).bindSame fun _ => .pure rfl

theorem agree_checkArguments (parameters : List (String × StaticType))
    {arguments arguments' : List (StaticType × Span)}
    (h : arguments.map (·.1) = arguments'.map (·.1)) :
    Agree w (checkArguments parameters arguments) (checkArguments parameters arguments') := by
  induction parameters generalizing arguments arguments' with
  | nil => exact .pure rfl
  | cons parameter parameters ih =>
    cases arguments with
    | nil =>
      obtain rfl : arguments' = [] := List.map_eq_nil_iff.mp h.symm
      exact .pure rfl
    | cons argument arguments =>
      cases arguments' with
      | nil => cases h
      | cons argument' arguments' =>
        obtain ⟨type, span⟩ := argument
        obtain ⟨type', span'⟩ := argument'
        obtain ⟨rfl, hrest⟩ := List.cons.inj h
        exact (agree_checkAssignable _ _ _ _).bindSame fun _ => ih hrest

theorem agree_signature? {callee callee' : Expression}
    (h : callee.Like (Apart w.offset w.limit) callee') :
    Agree w (signature? callee) (signature? callee') := by
  cases h with
  | name number => exact (agree_lookup _).bindSame fun _ => .pure rfl
  | _ => exact .pure rfl

theorem agree_bindCall {node node' : Node} (hnode : Apart w.offset w.limit node.id node'.id)
    {callee callee' : Expression} (hcallee : callee.Like (Apart w.offset w.limit) callee')
    (type : StaticType) {arguments arguments' : List (StaticType × Span)}
    (h : arguments.map (·.1) = arguments'.map (·.1)) :
    Agree w (bindCall node callee type arguments) (bindCall node' callee' type arguments') := by
  have hlength : arguments.length = arguments'.length := by
    rw [← List.length_map (·.1), h, List.length_map]
  refine (agree_signature? hcallee).bindSame fun found => ?_
  cases found with
  | none =>
    have hrecord : Agree w (do record node.id (.call []); return StaticType.any)
        (do record node'.id (.call []); return StaticType.any) :=
      (agree_record hnode _).bindSame fun _ => .pure rfl
    dsimp only
    split
    · exact hrecord
    · exact hrecord
    · exact (agree_report _ _ _).bindSame fun _ => hrecord
  | some signature =>
    dsimp only
    rw [hlength]
    refine .checked (agree_report _ _ _) ?_
    refine (agree_checkArguments _ h).bindSame fun _ => ?_
    exact (agree_record hnode _).bindSame fun _ => .pure rfl

theorem agree_bindAssignment {node node' : Node} (hnode : Apart w.offset w.limit node.id node'.id)
    (operator : Option BinaryOperator) (target target' : Node) (name : String) (value : StaticType)
    (span span' : Span) :
    Agree w (bindAssignment node operator target name value span)
      (bindAssignment node' operator target' name value span') := by
  refine (agree_lookup name).bindSame fun found => ?_
  cases found with
  | none => exact (agree_report _ _ _).bindSame fun _ => .pure rfl
  | some declaration =>
    have hstored : ∀ result, Agree w
        (do checkAssignable result declaration.type span; return result)
        (do checkAssignable result declaration.type span'; return result) :=
      fun _ => (agree_checkAssignable _ _ _ _).bindSame fun _ => .pure rfl
    refine (agree_typed _ _ _).bindSame fun _ => .checked (agree_report _ _ _) ?_
    cases operator with
    | none => exact hstored value
    | some operator =>
      refine (agree_bindBinary hnode _ _ _).bindSame fun result => ?_
      cases result with
      | none => exact .pure rfl
      | some result => exact hstored result

mutual

theorem agree_expression : (e : Expression) → ∀ {e' : Expression},
    e.Like (Apart w.offset w.limit) e' → Agree w (expression e) (expression e')
  | .literal _ _, _, .literal number => agree_typed _ _ _
  | .name _ name, _, .name number => by
    refine (agree_lookup name).bindSame fun found => ?_
    cases found with
    | none => exact (agree_report _ _ _).bindSame fun _ => agree_typed _ _ _
    | some declaration => exact agree_typed _ _ _
  | .paren _ inner, _, .paren number inside =>
    (agree_expression inner inside).bindSame fun _ => agree_typed _ _ _
  | .unary _ operator operand, _, .unary number inside => by
    refine (agree_expression operand inside).bindSame fun type =>
      .checked (agree_checkStepTarget inside) ?_
    cases BoundUnary.resolve? operator type with
    | none => exact (agree_report _ _ _).bindSame fun _ => agree_typed _ _ _
    | some row => exact (agree_record number _).bindSame fun _ => agree_typed _ _ _
  | .binary _ operator left right, _, .binary number first second =>
    (agree_expression left first).bindSame fun _ => (agree_expression right second).bindSame fun _ =>
      (agree_bindBinary number _ _ _).bindSame fun _ => agree_typed _ _ _
  | .assign _ operator target value, _, .assign number first second => by
    have htarget := agree_expression target first
    refine (agree_expression value second).bindSame fun _ => ?_
    cases first with
    | name _ =>
      exact (agree_bindAssignment number _ _ _ _ _ _ _).bindSame fun _ => agree_typed _ _ _
    | _ =>
      exact (agree_report _ _ _).bindSame fun _ => htarget.bindSame fun _ => agree_typed _ _ _
  | .object _ entries, _, .object number inside =>
    (agree_properties entries inside).bindSame fun _ => agree_typed _ _ _
  | .call _ callee arguments, _, .call number first others =>
    (agree_expression callee first).bindSame fun type =>
      (pairs_expressions arguments others).bind fun _ _ htypes =>
        (agree_bindCall number first type htypes).bindSame fun _ => agree_typed _ _ _
  | .member _ inner _, _, .member number inside text =>
    (agree_expression inner inside).bindSame fun _ =>
      (agree_checkIndexable _ _ _).bindSame fun _ => agree_typed _ _ _
  | .element _ inner index, _, .element number first second =>
    (agree_expression inner first).bindSame fun _ => (agree_expression index second).bindSame fun _ =>
      (agree_checkIndexable _ _ _).bindSame fun _ => agree_typed _ _ _
  | .hole _, _, .hole number => agree_typed _ _ _
termination_by structural e => e

theorem pairs_expressions : (es : List Expression) → ∀ {es' : List Expression},
    Expression.ListLike (Apart w.offset w.limit) es es' →
    Pairs w (fun types types' => types.map (·.1) = types'.map (·.1)) (expressions es) (expressions es')
  | [], _, .nil => .pure rfl
  | e :: rest, _, .cons head tail =>
    (agree_expression e head).bindSame fun type =>
      (pairs_expressions rest tail).bind fun _ _ htypes => .pure (congrArg (type :: ·) htypes)
termination_by structural es => es

theorem agree_properties : (entries : List (Expression × Expression)) →
    ∀ {entries' : List (Expression × Expression)},
      Expression.EntriesLike (Apart w.offset w.limit) entries entries' →
      Agree w (properties entries) (properties entries')
  | [], _, .nil => .pure rfl
  | (key, value) :: rest, _, .cons first second tail => by
    have hkey := agree_expression key first
    have hvalue : Agree w (do let _ ← expression value; properties rest)
        (do let _ ← expression _; properties _) :=
      (agree_expression value second).bindSame fun _ => agree_properties rest tail
    cases first with
    | name _ => exact hvalue
    | _ => exact hkey.bindSame fun _ => hvalue
termination_by structural entries => entries

end

theorem ofRef_of_bare {ref ref' : TypeRef} (h : ref.bare = ref'.bare) :
    StaticType.ofRef ref = StaticType.ofRef ref' ∧
      StaticType.unknownNames ref = StaticType.unknownNames ref' := by
  cases ref with
  | named name =>
    cases ref' with
    | named name' =>
      have htext := Name.text_of_bare (TypeRef.named.inj h)
      simp only [StaticType.ofRef, StaticType.unknownNames, htext, and_self]
    | union _ _ => cases h
  | union members span =>
    cases ref' with
    | named _ => cases h
    | union members' span' =>
      have htexts : members.map (·.text) = members'.map (·.text) := by
        have hbare := congrArg (List.map (·.text)) (TypeRef.union.inj h).1
        rw [List.map_map, List.map_map] at hbare
        exact hbare
      have htypes := congrArg (List.map fun name => (StaticType.ofName? name).getD .any) htexts
      rw [List.map_map, List.map_map] at htypes
      exact ⟨congrArg StaticType.union htypes, by simp only [StaticType.unknownNames, htexts]⟩

theorem agree_resolveType {ref ref' : TypeRef} (h : ref.bare = ref'.bare) :
    Agree w (resolveType ref) (resolveType ref') := by
  obtain ⟨htype, hnames⟩ := ofRef_of_bare h
  have hreports : ∀ names : List String, Agree w
      (names.forM fun name => report (.unknownType name) ref.span)
      (names.forM fun name => report (.unknownType name) ref'.span) := by
    intro names
    induction names with
    | nil => exact .pure rfl
    | cons name names ih => exact (agree_report _ _ _).bindSame fun _ => ih
  unfold resolveType
  rw [hnames, htype]
  exact (hreports _).bindSame fun _ => .pure rfl

theorem agree_resolveType? {ref ref' : Option TypeRef}
    (h : ref.map TypeRef.bare = ref'.map TypeRef.bare) :
    Agree w (resolveType? ref) (resolveType? ref') := by
  cases ref with
  | none =>
    cases ref' with
    | none => exact .pure rfl
    | some _ => cases h
  | some ref =>
    cases ref' with
    | none => cases h
    | some ref' => exact (agree_resolveType (Option.some.inj h)).map

theorem agree_letDeclaration (isMutable : Bool) {name name' : Name} (hname : name.text = name'.text)
    {type type' : Option TypeRef} (htype : type.map TypeRef.bare = type'.map TypeRef.bare)
    {initial initial' : Option Expression}
    (hinitial : Statement.OptionalLike (Apart w.offset w.limit) initial initial') :
    Agree w (letDeclaration isMutable name type initial)
      (letDeclaration isMutable name' type' initial') := by
  unfold letDeclaration
  rw [← hname]
  cases hinitial with
  | none =>
    have hnone : Agree w (pure none : BindM (Option StaticType)) (pure none) := .pure rfl
    exact hnone.bindSame fun _ => (agree_resolveType? htype).bindSame fun _ => agree_declare _ _
  | some inside =>
    have hvalue := (agree_expression _ inside).map (f := some)
    refine hvalue.bindSame fun value => (agree_resolveType? htype).bindSame fun annotated => ?_
    cases value with
    | none => exact agree_declare _ _
    | some actual =>
      cases annotated with
      | none => exact agree_declare _ _
      | some expected =>
        exact (agree_checkAssignable _ _ _ _).bindSame fun _ => agree_declare _ _

theorem agree_parameterTypes {parameters parameters' : List Parameter}
    (h : parameters.map Parameter.bare = parameters'.map Parameter.bare) :
    Agree w (parameterTypes parameters) (parameterTypes parameters') := by
  induction parameters generalizing parameters' with
  | nil =>
    obtain rfl : parameters' = [] := List.map_eq_nil_iff.mp h.symm
    exact .pure rfl
  | cons parameter rest ih =>
    cases parameters' with
    | nil => cases h
    | cons parameter' rest' =>
      obtain ⟨hparameter, hrest⟩ := List.cons.inj h
      obtain ⟨hname, htype⟩ := Parameter.mk.inj hparameter
      refine (agree_resolveType? htype).bindSame fun type => (ih hrest).bindSame fun types => ?_
      exact .pure (by rw [Name.text_of_bare hname])

theorem agree_checkResult (type : StaticType) (span span' : Span) :
    Agree w (checkResult type span) (checkResult type span') := by
  -- Both look at the innermost declared result, which is the same for both.
  have hget : Pairs w (fun b b' => b.results = b'.results) (get : BindM Binder) get :=
    fun b b' hb => ⟨hb.results.trans hb.results'.symm, hb⟩
  refine hget.bind fun b b' hresults => ?_
  rw [hresults]
  split
  · exact agree_checkAssignable _ _ _ _
  · exact .pure rfl

mutual

theorem agree_statement : (s : Statement) → ∀ {s' : Statement} {w : Passage},
    s.Like (Apart w.offset w.limit) s' → Agree w (statement s) (statement s')
  | .expression _ e, _, _, .expression number inside =>
    (agree_expression e inside).bindSame fun _ => .pure rfl
  | .letDecl _ isMutable _ _ _, _, _, .letDecl number text annotated inside =>
    agree_letDeclaration isMutable text annotated inside
  | .fnDecl _ _ _ _ body, _, w, .fnDecl number text taken annotated inside => by
    refine (agree_parameterTypes taken).bindSame fun types =>
      (agree_resolveType? annotated).bindSame fun resultType => ?_
    rw [← text]
    refine (agree_declare _ _).bindSame fun _ => ?_
    exact agree_enclosed _ fun outer =>
      agree_inFunction (w := { w with outer }) resultType fun results => agree_statements body inside
  | .block _ body, _, _, .block number inside =>
    agree_enclosed _ fun outer => agree_statements body inside
  | .branch _ condition body none, _, _, .branch number tested taken => by
    exact (agree_expression condition tested).bindSame fun _ =>
      (agree_statement body taken).bindSame fun _ => .pure rfl
  | .branch _ condition body (some other), _, _, .branchElse number tested taken otherwise => by
    exact (agree_expression condition tested).bindSame fun _ =>
      (agree_statement body taken).bindSame fun _ => agree_statement other otherwise
  | .giveBack node value, _, _, .giveBack number inside => by
    cases inside with
    | none => exact agree_checkResult _ _ _
    | some inside =>
      exact (agree_expression _ inside).bindSame fun _ => agree_checkResult _ _ _
  | .hole _, _, _, .hole number => .pure rfl
termination_by structural s => s

theorem agree_statements : (ss : List Statement) → ∀ {ss' : List Statement} {w : Passage},
    Statement.ListLike (Apart w.offset w.limit) ss ss' → Agree w (statements ss) (statements ss')
  | [], _, _, .nil => .pure rfl
  | s :: rest, _, _, .cons head tail =>
    (agree_statement s head).bindSame fun _ => agree_statements rest tail
termination_by structural ss => ss

end

theorem statements_append (body body' : List Statement) :
    statements (body ++ body') = statements body >>= fun _ => statements body' := by
  induction body with
  | nil => rfl
  | cons s rest ih =>
    change (statement s >>= fun _ => statements (rest ++ body')) = _
    rw [ih]
    rfl

end BindM

/-- The bindings of two programs and of both as one say the same. -/
structure Binding.Joined (first second joined : Binding) (offset : Nat) : Prop where
  globals : joined.globals = second.globals
  front : ∀ id < offset, joined.bound.node? id = first.bound.node? id
  back : ∀ id, joined.bound.node? (id + offset) = second.bound.node? id
  diagnostics : joined.diagnostics = []

namespace Globals

open BindM

def binder (globals : Globals) (body : List Statement) : Binder :=
  ((statements body).run { scopes := [globals] }).2

theorem parallel_binder (globals : Globals) {offset : Nat} {body body' : List Statement}
    (h : Statement.ListLike (Apart 0 offset) body body') :
    (globals.binder body).Parallel ⟨0, offset, .empty, [], []⟩ (globals.binder body') := by
  refine (agree_statements body h _ _ ?_).2
  exact {
    scopes := rfl
    inner := List.cons_ne_nil _ _
    outer := rfl
    results := rfl
    results' := rfl
    nodes := fun _ => rfl
    old := fun id hid => absurd hid (Nat.not_lt_zero id)
    bounded := fun _ _ => by simp [BoundTree.node?]
    reports := rfl }

theorem parallel_between {globals : Globals} {offset : Nat} (limit : Nat)
    {body body' : List Statement}
    (h : Statement.ListLike (Apart 0 offset) body body')
    (hclean : (globals.binder body).diagnostics = #[]) :
    Binder.Parallel ⟨offset, limit, (globals.binder body).bound, [], []⟩
      { scopes := [(globals.binder body).scopes.getLastD .empty] } (globals.binder body') := by
  have hfront := parallel_binder globals h
  have hscopes : (globals.binder body).scopes =
      [(globals.binder body).scopes.getLastD .empty] := by
    have houter := hfront.outer
    cases hcase : (globals.binder body).scopes with
    | nil => exact absurd hcase hfront.inner
    | cons scope outer =>
      rw [hcase] at houter
      obtain rfl : outer = [] := houter
      rfl
  exact {
    scopes := hfront.scopes.trans hscopes
    inner := List.cons_ne_nil _ _
    outer := rfl
    results := rfl
    results' := hfront.results'
    nodes := fun id => by
      have hfree := hfront.bounded (id + offset) (Nat.le_add_left offset id)
      exact (hfront.nodes (id + offset)).trans (hfree.trans (by simp [BoundTree.node?]))
    old := fun id _ => hfront.nodes id
    bounded := fun _ _ => by simp [BoundTree.node?]
    reports := hfront.reports.trans (congrArg Array.size hclean) }

theorem bind_joined {globals : Globals} {first second joined : SyntaxTree} {offset limit : Nat}
    {body body' : List Statement} (hjoined : joined.statements = body ++ body')
    (hfirst : Statement.ListLike (Apart 0 offset) first.statements body)
    (hsecond : Statement.ListLike (Apart offset limit) second.statements body')
    (hclean : (globals.bind first).diagnostics = [])
    (hclean' : ((globals.bind first).globals.bind second).diagnostics = []) :
    Binding.Joined (globals.bind first) ((globals.bind first).globals.bind second)
      (globals.bind joined) offset := by
  have hback := (agree_statements second.statements hsecond _ _
    (parallel_between limit hfirst (Array.toList_eq_nil_iff.mp hclean))).2
  have hrun : globals.bind joined =
      { bound := ((statements body').run (globals.binder body)).2.bound
        globals := ((statements body').run (globals.binder body)).2.scopes.getLastD .empty
        diagnostics := ((statements body').run (globals.binder body)).2.diagnostics.toList } := by
    unfold Globals.bind
    rw [hjoined, statements_append]
    rfl
  rw [hrun]
  exact {
    globals := congrArg (·.getLastD .empty) hback.scopes
    front := hback.old
    back := hback.nodes
    diagnostics := by
      have hsize := hback.reports.trans (congrArg List.length hclean')
      exact Array.toList_eq_nil_iff.mpr (Array.eq_empty_of_size_eq_zero hsize) }

end Globals

end StackScript
