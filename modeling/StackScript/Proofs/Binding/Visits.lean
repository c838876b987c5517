import StackScript.Binding.Bind
import StackScript.Proofs.Tree.Bare

set_option autoImplicit false

/-!
# The course of the walk

`visits` lists the expressions to which the walk comes, each with the binder at that moment. Main
statement: `BindM.walks_statements`. If all numbers of a tree are different, nothing is recorded
under the numbers of an expression before the walk comes to it, and what is recorded there when the
walk leaves it stays to the end.
-/
namespace StackScript

namespace Binder

/-- Between the two binders, nodes and types were recorded under the given numbers only, and nothing
that was reported was taken back. -/
structure Frame (ids : List Nat) (b b' : Binder) : Prop where
  nodes : ∀ id, id ∉ ids → b'.bound.node? id = b.bound.node? id
  types : ∀ id, id ∉ ids → b'.bound.type? id = b.bound.type? id
  reports : b.diagnostics.toList <+: b'.diagnostics.toList

def Fresh (ids : List Nat) (b : Binder) : Prop :=
  ∀ id ∈ ids, b.bound.node? id = none ∧ b.bound.type? id = none

variable {ids more : List Nat} {b b' b'' : Binder}

theorem Frame.refl (ids : List Nat) (b : Binder) : Frame ids b b :=
  ⟨fun _ _ => rfl, fun _ _ => rfl, List.prefix_refl _⟩

theorem Frame.trans (h : Frame ids b b') (h' : Frame ids b' b'') : Frame ids b b'' where
  nodes id hid := (h'.nodes id hid).trans (h.nodes id hid)
  types id hid := (h'.types id hid).trans (h.types id hid)
  reports := h.reports.trans h'.reports

theorem Frame.mono (h : Frame ids b b') (hids : ids ⊆ more) : Frame more b b' where
  nodes id hid := h.nodes id fun hmem => hid (hids hmem)
  types id hid := h.types id fun hmem => hid (hids hmem)
  reports := h.reports

theorem Fresh.frame (h : Fresh more b) (hframe : Frame ids b b') (hapart : ∀ id ∈ more, id ∉ ids) :
    Fresh more b' := by
  intro id hid
  rw [hframe.nodes id (hapart id hid), hframe.types id (hapart id hid)]
  exact h id hid

theorem Fresh.subset (h : Fresh more b) (hids : ids ⊆ more) : Fresh ids b :=
  fun id hid => h id (hids hid)

end Binder

namespace BindM

open Binder (Frame Fresh)

variable {α β : Type} {ids more : List Nat}

def after (action : BindM α) (b : Binder) : Binder := (action.run b).2

/-- The action records under the given numbers only. -/
def Touches (ids : List Nat) (action : BindM α) : Prop := ∀ b, Frame ids b (after action b)

theorem touches_pure (x : α) : Touches ids (pure x : BindM α) := fun b => .refl ids b

theorem Touches.bind {action : BindM α} {f : α → BindM β} (h : Touches ids action)
    (hf : ∀ x, Touches ids (f x)) : Touches ids (action >>= f) :=
  fun b => (h b).trans (hf _ (after action b))

theorem Touches.ofPure {x : α} {f : α → BindM β} (h : Touches ids (f x)) :
    Touches ids (Pure.pure x >>= f) := h

theorem Touches.checked {c : Prop} [Decidable c] {check : BindM Unit} {rest : Unit → BindM β}
    (hcheck : Touches ids check) (hrest : ∀ x, Touches ids (rest x)) :
    Touches ids (if c then check >>= rest else rest ()) := by
  split
  · exact hcheck.bind hrest
  · exact hrest ()

theorem touches_modify {f : Binder → Binder} (hreported : ∀ b, (f b).diagnostics = b.diagnostics)
    (hrecorded : ∀ b, (f b).bound = b.bound) : Touches ids (modify f : BindM Unit) := by
  intro b
  change Frame ids b (f b)
  refine ⟨fun id _ => by rw [hrecorded], fun id _ => by rw [hrecorded], ?_⟩
  exact (hreported b).symm ▸ List.prefix_refl _

theorem touches_get : Touches ids (get : BindM Binder) := fun b => .refl ids b

theorem touches_report (fault : BindingFault) (span : Span) : Touches ids (report fault span) := by
  intro b
  refine ⟨fun _ _ => rfl, fun _ _ => rfl, ?_⟩
  have hpush : (after (report fault span) b).diagnostics.toList =
      b.diagnostics.toList ++ [⟨fault.code, .error, fault.message, span⟩] := Array.toList_push
  rw [hpush]
  exact List.prefix_append _ _

theorem touches_lookup (name : String) : Touches ids (lookup name) :=
  touches_get.bind fun _ => touches_pure _

theorem node?_insert (bound : BoundTree) (id : Nat) (node : BoundNode) (other : Nat) :
    (bound.insert id node).node? other = if id = other then some node else bound.node? other := by
  simp only [BoundTree.insert, BoundTree.node?, Std.TreeMap.getElem?_insert]
  split <;> simp_all

theorem type?_insertType (bound : BoundTree) (id : Nat) (type : StaticType) (other : Nat) :
    (bound.insertType id type).type? other =
      if id = other then some type else bound.type? other := by
  simp only [BoundTree.insertType, BoundTree.type?, Std.TreeMap.getElem?_insert]
  split <;> simp_all

theorem touches_record {id : Nat} (hid : id ∈ ids) (node : BoundNode) :
    Touches ids (record id node) := by
  refine fun b => ⟨fun other hother => ?_, fun _ _ => rfl, List.prefix_refl _⟩
  have hne : id ≠ other := fun h => hother (h ▸ hid)
  exact (node?_insert b.bound id node other).trans (if_neg hne)

theorem touches_typed {node : Node} (hid : node.id ∈ ids) (type : StaticType) :
    Touches ids (typed node type) := by
  refine fun b => ⟨fun _ _ => rfl, fun other hother => ?_, List.prefix_refl _⟩
  have hne : node.id ≠ other := fun h => hother (h ▸ hid)
  exact (type?_insertType b.bound node.id type other).trans (if_neg hne)

theorem touches_declare (name : String) (declaration : Declaration) :
    Touches ids (declare name declaration) := by
  refine touches_modify (fun b => ?_) fun b => ?_ <;> split <;> rfl

theorem touches_openScope (scope : NameTable Declaration) : Touches ids (openScope scope) :=
  touches_modify (fun _ => rfl) fun _ => rfl

theorem touches_closeScope : Touches ids closeScope := touches_modify (fun _ => rfl) fun _ => rfl

theorem touches_openFunction (result : Option StaticType) : Touches ids (openFunction result) :=
  touches_modify (fun _ => rfl) fun _ => rfl

theorem touches_closeFunction : Touches ids closeFunction :=
  touches_modify (fun _ => rfl) fun _ => rfl

theorem touches_checkAssignable (actual expected : StaticType) (span : Span) :
    Touches ids (checkAssignable actual expected span) := by
  unfold checkAssignable
  split
  · exact touches_report _ _
  · exact touches_pure _

theorem touches_checkIndexable (type : StaticType) (span : Span) :
    Touches ids (checkIndexable type span) := by
  unfold checkIndexable
  split
  · exact touches_report _ _
  · exact touches_pure _

theorem touches_checkStepTarget (target : Expression) : Touches ids (checkStepTarget target) := by
  unfold checkStepTarget
  split
  · refine (touches_lookup _).bind fun found => ?_
    split
    · split
      · exact touches_report _ _
      · exact touches_pure _
    · exact touches_pure _
  · exact touches_report _ _

theorem touches_bindBinary {node : Node} (hid : node.id ∈ ids) (operator : BinaryOperator)
    (left right : StaticType) : Touches ids (bindBinary node operator left right) := by
  unfold bindBinary
  split
  · exact (touches_record hid _).bind fun _ => touches_pure _
  · exact (touches_report _ _).bind fun _ => touches_pure _

theorem touches_checkArguments (parameters : List (String × StaticType))
    (arguments : List (StaticType × Span)) : Touches ids (checkArguments parameters arguments) := by
  induction parameters generalizing arguments with
  | nil => exact touches_pure _
  | cons parameter parameters ih =>
    cases arguments with
    | nil => exact touches_pure _
    | cons argument arguments =>
      exact (touches_checkAssignable _ _ _).bind fun _ => ih arguments

theorem touches_signature? (callee : Expression) : Touches ids (signature? callee) := by
  unfold signature?
  split
  · exact (touches_lookup _).bind fun _ => touches_pure _
  · exact touches_pure _

theorem touches_bindCall {node : Node} (hid : node.id ∈ ids) (callee : Expression)
    (type : StaticType) (arguments : List (StaticType × Span)) :
    Touches ids (bindCall node callee type arguments) := by
  have hrecord : ∀ (names : List String) (result : StaticType), Touches ids (do
      record node.id (.call names)
      return result) := fun _ _ => (touches_record hid _).bind fun _ => touches_pure _
  refine (touches_signature? callee).bind fun found => ?_
  cases found with
  | none =>
    dsimp only
    split
    · exact hrecord _ _
    · exact hrecord _ _
    · exact (touches_report _ _).bind fun _ => hrecord _ _
  | some signature =>
    exact .checked (touches_report _ _) fun _ =>
      (touches_checkArguments _ _).bind fun _ => hrecord _ _

theorem touches_bindAssignment {node target : Node} (hid : node.id ∈ ids)
    (htarget : target.id ∈ ids) (operator : Option BinaryOperator) (name : String)
    (value : StaticType) (span : Span) :
    Touches ids (bindAssignment node operator target name value span) := by
  refine (touches_lookup name).bind fun found => ?_
  cases found with
  | none => exact (touches_report _ _).bind fun _ => touches_pure _
  | some declaration =>
    have hstored : ∀ result, Touches ids (do
        checkAssignable result declaration.type span
        return result) :=
      fun _ => (touches_checkAssignable _ _ _).bind fun _ => touches_pure _
    refine (touches_typed htarget _).bind fun _ => .checked (touches_report _ _) fun _ => ?_
    cases operator with
    | none => exact hstored value
    | some operator =>
      refine (touches_bindBinary hid operator _ _).bind fun result => ?_
      cases result with
      | none => exact touches_pure _
      | some result => exact hstored result

theorem touches_resolveType (ref : TypeRef) : Touches ids (resolveType ref) := by
  have hreports : ∀ names : List String,
      Touches ids (names.forM fun name => report (.unknownType name) ref.span) := by
    intro names
    induction names with
    | nil => exact touches_pure _
    | cons name names ih => exact (touches_report _ _).bind fun _ => ih
  exact (hreports _).bind fun _ => touches_pure _

theorem touches_resolveType? (ref : Option TypeRef) : Touches ids (resolveType? ref) := by
  cases ref with
  | none => exact touches_pure _
  | some ref => exact (touches_resolveType ref).bind fun _ => touches_pure _

theorem touches_parameterTypes (parameters : List Parameter) :
    Touches ids (parameterTypes parameters) := by
  induction parameters with
  | nil => exact touches_pure _
  | cons parameter rest ih =>
    exact (touches_resolveType? _).bind fun type => ih.bind fun types => touches_pure _

theorem touches_checkResult (type : StaticType) (span : Span) :
    Touches ids (checkResult type span) := by
  refine touches_get.bind fun b => ?_
  split
  · exact touches_checkAssignable _ _ _
  · exact touches_pure _

def bindUnary (node : Node) (operator : UnaryOperator) (type : StaticType) : BindM StaticType :=
  match BoundUnary.resolve? operator type with
  | some row => do
    record node.id (.unary row)
    typed node row.result
  | none => do
    report (.noUnaryOperator operator type) node.span
    typed node .any

theorem expression_unary (node : Node) (operator : UnaryOperator) (operand : Expression) :
    expression (.unary node operator operand) = (do
      let type ← expression operand
      if operator == .increment || operator == .decrement then checkStepTarget operand
      bindUnary node operator type) := rfl

theorem touches_bindUnary {node : Node} (hid : node.id ∈ ids) (operator : UnaryOperator)
    (type : StaticType) : Touches ids (bindUnary node operator type) := by
  unfold bindUnary
  split
  · exact (touches_record hid _).bind fun _ => touches_typed hid _
  · exact (touches_report _ _).bind fun _ => touches_typed hid _

/-- An expression and the binder when the walk comes to it. -/
abbrev Visit := Expression × Binder

mutual

/-- The expressions to which the walk over an expression comes. A name that is assigned to, and a
key that is a bare name, are not walked over. -/
def visits : Expression → Binder → List Visit
  | .literal node value, b => [(.literal node value, b)]
  | .name node name, b => [(.name node name, b)]
  | .paren node inner, b => (.paren node inner, b) :: visits inner b
  | .unary node operator operand, b => (.unary node operator operand, b) :: visits operand b
  | .binary node operator left right, b =>
    (.binary node operator left right, b) ::
      (visits left b ++ visits right (after (expression left) b))
  | .assign node operator target value, b =>
    (.assign node operator target value, b) ::
      match target with
      | .name _ _ => visits value b
      | target => visits value b ++
          visits target (after (report .invalidTarget target.span) (after (expression value) b))
  | .object node properties, b => (.object node properties, b) :: propertyVisits properties b
  | .call node callee arguments, b =>
    (.call node callee arguments, b) ::
      (visits callee b ++ listVisits arguments (after (expression callee) b))
  | .member node object name, b => (.member node object name, b) :: visits object b
  | .element node object index, b =>
    (.element node object index, b) ::
      (visits object b ++ visits index (after (expression object) b))
  | .hole node, b => [(.hole node, b)]
termination_by structural e => e

def listVisits : List Expression → Binder → List Visit
  | [], _ => []
  | e :: rest, b => visits e b ++ listVisits rest (after (expression e) b)
termination_by structural es => es

def propertyVisits : List (Expression × Expression) → Binder → List Visit
  | [], _ => []
  | (key, value) :: rest, b =>
    match key with
    | .name _ _ => visits value b ++ propertyVisits rest (after (expression value) b)
    | key =>
      let behind := after (expression key) b
      visits key b ++ (visits value behind ++ propertyVisits rest (after (expression value) behind))
termination_by structural entries => entries

end

def optionalVisits : Option Expression → Binder → List Visit
  | some e, b => visits e b
  | none, _ => []

def enterFunction (name : Name) (parameters : List Parameter) (result : Option TypeRef) :
    BindM Unit := do
  let types ← parameterTypes parameters
  let resultType ← resolveType? result
  declare name.text {
    type := .function
    isMutable := false
    signature := some { parameters := types, result := resultType.getD .any } }
  openScope (.ofList (types.map fun (name, type) => (name, { type, isMutable := true })))
  openFunction resultType

mutual

def statementVisits : Statement → Binder → List Visit
  | .expression _ e, b => visits e b
  | .letDecl _ _ _ _ initial, b => optionalVisits initial b
  | .fnDecl _ name parameters result body, b =>
    statementsVisits body (after (enterFunction name parameters result) b)
  | .block _ body, b => statementsVisits body (after (openScope .empty) b)
  | .branch _ condition body otherwise, b =>
    let behind := after (expression condition) b
    let others := match otherwise with
      | some other => statementVisits other (after (statement body) behind)
      | none => []
    visits condition b ++ (statementVisits body behind ++ others)
  | .giveBack _ value, b => optionalVisits value b
  | .hole _, _ => []
termination_by structural s => s

def statementsVisits : List Statement → Binder → List Visit
  | [], _ => []
  | s :: rest, b => statementVisits s b ++ statementsVisits rest (after (statement s) b)
termination_by structural ss => ss

end

/-- Nothing was recorded for the expression before the visit; what is recorded in the end, and
reported, was so after the visit. -/
structure Visit.Lasts (visit : Visit) (final : Binder) : Prop where
  nodup : visit.1.ids.Nodup
  fresh : Fresh visit.1.ids visit.2
  nodes : ∀ id ∈ visit.1.ids,
    final.bound.node? id = (after (expression visit.1) visit.2).bound.node? id
  types : ∀ id ∈ visit.1.ids,
    final.bound.type? id = (after (expression visit.1) visit.2).bound.type? id
  reports : (after (expression visit.1) visit.2).diagnostics.toList <+: final.diagnostics.toList

theorem Visit.Lasts.frame {visit : Visit} {b b' : Binder} (h : visit.Lasts b)
    (hframe : Frame ids b b') (hapart : ∀ id ∈ visit.1.ids, id ∉ ids) : visit.Lasts b' where
  nodup := h.nodup
  fresh := h.fresh
  nodes id hid := (hframe.nodes id (hapart id hid)).trans (h.nodes id hid)
  types id hid := (hframe.types id (hapart id hid)).trans (h.types id hid)
  reports := h.reports.trans hframe.reports

/-- The action records under the given numbers only and makes these visits, and if nothing is
recorded yet under the numbers, what the visits find lasts. -/
def Walks (ids : List Nat) (visits : Binder → List Visit) (action : BindM α) : Prop :=
  ∀ b, Frame ids b (after action b) ∧
    (Fresh ids b → ∀ visit ∈ visits b, visit.1.ids ⊆ ids ∧ visit.Lasts (after action b))

variable {vs vs' : Binder → List Visit}

theorem Touches.walks {action : BindM α} (h : Touches ids action) :
    Walks ids (fun _ => []) action :=
  fun b => ⟨h b, by simp⟩

theorem Walks.mono {action : BindM α} (h : Walks ids vs action) (hids : ids ⊆ more) :
    Walks more vs action := by
  refine fun b => ⟨(h b).1.mono hids, fun hfresh visit hvisit => ?_⟩
  obtain ⟨hsub, hlasts⟩ := (h b).2 (hfresh.subset hids) visit hvisit
  exact ⟨List.Subset.trans hsub hids, hlasts⟩

theorem Walks.bind {action : BindM α} {f : α → BindM β} (h : Walks ids vs action)
    (hapart : ∀ id ∈ ids, ∀ other ∈ more, id ≠ other) (hf : ∀ x, Walks more vs' (f x)) :
    Walks (ids ++ more) (fun b => vs b ++ vs' (after action b)) (action >>= f) := by
  intro b
  have hleft : ids ⊆ ids ++ more := List.subset_append_left _ _
  have hright : more ⊆ ids ++ more := List.subset_append_right _ _
  obtain ⟨hframe, hfirst⟩ := h b
  obtain ⟨hframe', hsecond⟩ := hf (action.run b).1 (after action b)
  refine ⟨(hframe.mono hleft).trans (hframe'.mono hright), fun hfresh visit hvisit => ?_⟩
  rcases List.mem_append.mp hvisit with hvisit | hvisit
  · obtain ⟨hsub, hlasts⟩ := hfirst (hfresh.subset hleft) visit hvisit
    refine ⟨List.Subset.trans hsub hleft, hlasts.frame hframe' fun id hid hother => ?_⟩
    exact hapart id (hsub hid) id hother rfl
  · have hlater : Fresh more (after action b) :=
      (hfresh.subset hright).frame hframe fun id hid hother => hapart id hother id hid rfl
    obtain ⟨hsub, hlasts⟩ := hsecond hlater visit hvisit
    exact ⟨List.Subset.trans hsub hright, hlasts⟩

theorem Walks.finish {action : BindM α} {f : α → BindM β} (h : Walks ids vs action)
    (hapart : ∀ id ∈ ids, ∀ other ∈ more, id ≠ other) (hf : ∀ x, Touches more (f x)) :
    Walks (ids ++ more) vs (action >>= f) := by
  have hboth := h.bind hapart fun x => (hf x).walks
  simpa only [List.append_nil] using hboth

theorem Walks.conclude {action : BindM α} {f : α → BindM β} (h : Walks ids vs action)
    (hf : ∀ x, Touches [] (f x)) : Walks ids vs (action >>= f) := by
  have hboth := h.finish (by simp) hf
  rwa [List.append_nil] at hboth

theorem Walks.andThen {action : BindM α} {f : α → BindM β} (h : Touches [] action)
    (hf : ∀ x, Walks ids vs (f x)) : Walks ids (fun b => vs (after action b)) (action >>= f) :=
  h.walks.bind (by simp) hf

theorem Walks.visited {e : Expression} (h : Walks e.ids vs (expression e)) (hnodup : e.ids.Nodup) :
    Walks e.ids (fun b => (e, b) :: vs b) (expression e) := by
  refine fun b => ⟨(h b).1, fun hfresh visit hvisit => ?_⟩
  rcases List.mem_cons.mp hvisit with rfl | hvisit
  · exact ⟨List.Subset.refl _, hnodup, hfresh, fun _ _ => rfl, fun _ _ => rfl, List.prefix_refl _⟩
  · exact (h b).2 hfresh visit hvisit

mutual

theorem walks_expression : (e : Expression) → e.ids.Nodup →
    Walks e.ids (visits e) (expression e)
  | .literal node value, hids => by
    refine Walks.visited ?_ hids
    exact (touches_typed List.mem_cons_self _).walks
  | .name node name, hids => by
    refine Walks.visited ?_ hids
    refine ((touches_lookup name).bind fun found => ?_).walks
    cases found with
    | none => exact (touches_report _ _).bind fun _ => touches_typed List.mem_cons_self _
    | some declaration => exact touches_typed List.mem_cons_self _
  | .paren node inner, hids => by
    obtain ⟨hnodup, -, hapart⟩ := List.nodup_append.mp hids
    refine Walks.visited ?_ hids
    exact (walks_expression inner hnodup).finish hapart fun _ => touches_typed List.mem_cons_self _
  | .unary node operator operand, hids => by
    obtain ⟨hnodup, -, hapart⟩ := List.nodup_append.mp hids
    refine Walks.visited ?_ hids
    rw [expression_unary]
    exact (walks_expression operand hnodup).finish hapart fun type =>
      .checked (touches_checkStepTarget operand) fun _ => touches_bindUnary List.mem_cons_self _ _
  | .binary node operator left right, hids => by
    refine Walks.visited ?_ hids
    rw [Expression.ids, List.append_assoc] at hids ⊢
    obtain ⟨hleft, hrest, hapart⟩ := List.nodup_append.mp hids
    obtain ⟨hright, -, hlast⟩ := List.nodup_append.mp hrest
    refine (walks_expression left hleft).bind hapart fun leftType =>
      (walks_expression right hright).finish hlast fun rightType => ?_
    exact (touches_bindBinary List.mem_cons_self _ _ _).bind fun _ =>
      touches_typed List.mem_cons_self _
  | .assign node operator target value, hids => by
    obtain ⟨hparts, -, hlast⟩ := List.nodup_append.mp hids
    obtain ⟨htargetIds, hvalueIds, hapart⟩ := List.nodup_append.mp hparts
    have hvalue := walks_expression value hvalueIds
    have htarget := walks_expression target htargetIds
    cases target with
    | name targetNode name =>
      refine Walks.visited ?_ hids
      have hnumbers : ∀ id ∈ value.ids, ∀ other ∈ [targetNode.id, node.id], id ≠ other := by
        intro id hid other hother
        rcases List.mem_cons.mp hother with rfl | hother
        · exact (hapart _ List.mem_cons_self id hid).symm
        · exact hlast id (List.mem_append_right _ hid) other hother
      have hlater : node.id ∈ [targetNode.id, node.id] := List.mem_cons_of_mem _ List.mem_cons_self
      refine (hvalue.finish hnumbers fun valueType =>
        (touches_bindAssignment hlater List.mem_cons_self operator name valueType _).bind
          fun _ => touches_typed hlater _).mono ?_
      intro id hid
      simp only [Expression.ids, List.mem_append, List.mem_cons, List.not_mem_nil, or_false]
        at hid ⊢
      rcases hid with hin | rfl | rfl
      · exact .inl (.inr hin)
      · exact .inl (.inl rfl)
      · exact .inr rfl
    | _ =>
      -- the value is bound before the target, against the order of their numbers
      refine Walks.visited ?_ hids
      refine (hvalue.bind ?_ fun valueType => .andThen (touches_report _ _) fun _ =>
        htarget.finish (fun id hid => hlast id (List.mem_append_left _ hid)) fun _ =>
          touches_typed List.mem_cons_self valueType).mono ?_
      · intro id hid other hother
        rcases List.mem_append.mp hother with hother | hother
        · exact (hapart other hother id hid).symm
        · exact hlast id (List.mem_append_right _ hid) other hother
      · intro id hid
        simp only [Expression.ids, List.mem_append] at hid ⊢
        rcases hid with hin | hin | hin
        · exact .inl (.inr hin)
        · exact .inl (.inl hin)
        · exact .inr hin
  | .object node properties, hids => by
    obtain ⟨hnodup, -, hapart⟩ := List.nodup_append.mp hids
    refine Walks.visited ?_ hids
    exact (walks_properties properties hnodup).finish hapart fun _ =>
      touches_typed List.mem_cons_self _
  | .call node callee arguments, hids => by
    refine Walks.visited ?_ hids
    rw [Expression.ids, List.append_assoc] at hids ⊢
    obtain ⟨hcallee, hrest, hapart⟩ := List.nodup_append.mp hids
    obtain ⟨harguments, -, hlast⟩ := List.nodup_append.mp hrest
    refine (walks_expression callee hcallee).bind hapart fun type =>
      (walks_expressions arguments harguments).finish hlast fun types => ?_
    exact (touches_bindCall List.mem_cons_self _ _ _).bind fun _ =>
      touches_typed List.mem_cons_self _
  | .member node object name, hids => by
    obtain ⟨hnodup, -, hapart⟩ := List.nodup_append.mp hids
    refine Walks.visited ?_ hids
    exact (walks_expression object hnodup).finish hapart fun type =>
      (touches_checkIndexable type _).bind fun _ => touches_typed List.mem_cons_self _
  | .element node object index, hids => by
    refine Walks.visited ?_ hids
    rw [Expression.ids, List.append_assoc] at hids ⊢
    obtain ⟨hobject, hrest, hapart⟩ := List.nodup_append.mp hids
    obtain ⟨hindex, -, hlast⟩ := List.nodup_append.mp hrest
    exact (walks_expression object hobject).bind hapart fun type =>
      (walks_expression index hindex).finish hlast fun _ =>
        (touches_checkIndexable type _).bind fun _ => touches_typed List.mem_cons_self _
  | .hole node, hids => by
    refine Walks.visited ?_ hids
    exact (touches_typed List.mem_cons_self _).walks
termination_by structural e => e

theorem walks_expressions : (es : List Expression) → (Expression.listIds es).Nodup →
    Walks (Expression.listIds es) (listVisits es) (expressions es)
  | [], _ => (touches_pure _).walks
  | e :: rest, hids => by
    obtain ⟨hfirst, hrest, hapart⟩ := List.nodup_append.mp hids
    exact (walks_expression e hfirst).bind hapart fun type =>
      (walks_expressions rest hrest).conclude fun types => touches_pure ((type, e.span) :: types)
termination_by structural es => es

theorem walks_properties : (entries : List (Expression × Expression)) →
    (Expression.entriesIds entries).Nodup →
    Walks (Expression.entriesIds entries) (propertyVisits entries) (properties entries)
  | [], _ => (touches_pure _).walks
  | (key, value) :: rest, hids => by
    rw [Expression.entriesIds, List.append_assoc] at hids ⊢
    obtain ⟨hkeyIds, hothers, hapart⟩ := List.nodup_append.mp hids
    obtain ⟨hvalueIds, hrestIds, hlast⟩ := List.nodup_append.mp hothers
    have hkey := walks_expression key hkeyIds
    have hvalue := (walks_expression value hvalueIds).bind hlast fun _ =>
      walks_properties rest hrestIds
    cases key with
    | name _ _ => exact hvalue.mono (List.subset_append_right _ _)
    | _ => exact hkey.bind hapart fun _ => hvalue
termination_by structural entries => entries

end

theorem walks_letDeclaration (isMutable : Bool) (name : Name) (type : Option TypeRef)
    {initial : Option Expression} (hids : (Statement.optionalIds initial).Nodup) :
    Walks (Statement.optionalIds initial) (optionalVisits initial)
      (letDeclaration isMutable name type initial) := by
  have hdeclare : ∀ type, Touches [] (declare name.text { type, isMutable }) :=
    fun _ => touches_declare _ _
  unfold letDeclaration
  cases initial with
  | none => exact Touches.walks (.ofPure ((touches_resolveType? type).bind fun _ => hdeclare _))
  | some e =>
    have hvalue : Walks e.ids (visits e) (some <$> expression e) := walks_expression e hids
    refine hvalue.conclude fun value => (touches_resolveType? type).bind fun annotated => ?_
    cases value with
    | none => exact hdeclare _
    | some actual =>
      cases annotated with
      | none => exact hdeclare _
      | some expected => exact (touches_checkAssignable _ _ _).bind fun _ => hdeclare _

theorem touches_enterFunction (name : Name) (parameters : List Parameter)
    (result : Option TypeRef) :
    Touches ids (enterFunction name parameters result) :=
  (touches_parameterTypes _).bind fun _ => (touches_resolveType? _).bind fun _ =>
    (touches_declare _ _).bind fun _ => (touches_openScope _).bind fun _ => touches_openFunction _

theorem statement_fnDecl (node : Node) (name : Name) (parameters : List Parameter)
    (result : Option TypeRef) (body : List Statement) :
    statement (.fnDecl node name parameters result body) = (do
      enterFunction name parameters result
      statements body
      closeFunction
      closeScope) := by
  simp only [enterFunction, bind_assoc]
  rfl

mutual

theorem walks_statement : (s : Statement) → s.ids.Nodup →
    Walks s.ids (statementVisits s) (statement s)
  | .expression node e, hids =>
    ((walks_expression e (List.nodup_append.mp hids).1).conclude fun _ => touches_pure _).mono
      (List.subset_append_left _ _)
  | .letDecl node isMutable name type initial, hids =>
    (walks_letDeclaration isMutable name type (List.nodup_append.mp hids).1).mono
      (List.subset_append_left _ _)
  | .fnDecl node name parameters result body, hids => by
    have hbody := walks_statements body (List.nodup_append.mp hids).1
    rw [statement_fnDecl]
    refine Walks.mono ?_ (List.subset_append_left _ _)
    exact .andThen (touches_enterFunction _ _ _) fun _ => hbody.conclude fun _ =>
      touches_closeFunction.bind fun _ => touches_closeScope
  | .block node body, hids => by
    have hbody := walks_statements body (List.nodup_append.mp hids).1
    refine Walks.mono ?_ (List.subset_append_left _ _)
    exact .andThen (touches_openScope _) fun _ => hbody.conclude fun _ => touches_closeScope
  | .branch node condition body none, hids => by
    rw [Statement.ids, List.append_assoc condition.ids] at hids ⊢
    obtain ⟨hcondition, hrest, hapart⟩ := List.nodup_append.mp (List.nodup_append.mp hids).1
    obtain ⟨hbody, -, hlast⟩ := List.nodup_append.mp hrest
    refine Walks.mono ?_ (List.subset_append_left _ _)
    exact (walks_expression condition hcondition).bind hapart fun _ =>
      (walks_statement body hbody).bind hlast fun _ => (touches_pure ()).walks
  | .branch node condition body (some other), hids => by
    rw [Statement.ids, List.append_assoc condition.ids] at hids ⊢
    obtain ⟨hcondition, hrest, hapart⟩ := List.nodup_append.mp (List.nodup_append.mp hids).1
    obtain ⟨hbody, hother, hlast⟩ := List.nodup_append.mp hrest
    refine Walks.mono ?_ (List.subset_append_left _ _)
    exact (walks_expression condition hcondition).bind hapart fun _ =>
      (walks_statement body hbody).bind hlast fun _ => walks_statement other hother
  | .giveBack node value, hids => by
    refine Walks.mono ?_ (List.subset_append_left _ _)
    cases value with
    | none => exact (touches_checkResult _ _).walks
    | some e =>
      exact (walks_expression e (List.nodup_append.mp hids).1).conclude fun _ =>
        touches_checkResult _ _
  | .hole node, _ => (touches_pure _).walks
termination_by structural s => s

theorem walks_statements : (ss : List Statement) → (Statement.listIds ss).Nodup →
    Walks (Statement.listIds ss) (statementsVisits ss) (statements ss)
  | [], _ => (touches_pure _).walks
  | s :: rest, hids => by
    obtain ⟨hfirst, hrest, hapart⟩ := List.nodup_append.mp hids
    exact (walks_statement s hfirst).bind hapart fun _ => walks_statements rest hrest
termination_by structural ss => ss

end

end BindM

end StackScript
