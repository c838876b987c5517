import StackScript.Proofs.Binding.Visits
import StackScript.Proofs.Tree.Names
import StackScript.Proofs.Tree.Numbering

set_option autoImplicit false

/-!
# The verdicts of the operator tables

Main statement: `operators_have_recorded_verdicts`. For every operator of a text the bound tree
holds the row of the table that was chosen for the types of its operands, or a report says that
there is none. What is recorded at an operator is found out on the spot; that it is still there in
the end follows from the numbers of the nodes, which are all different.
-/
namespace StackScript

def BoundBinary.Fits (operator : BinaryOperator) (left right : StaticType) (row : BoundBinary) :
    Prop :=
  row.operator = operator ∧ left.isAssignableTo row.left = true ∧
    right.isAssignableTo row.right = true

def Unmatched (reports : List Diagnostic) (span : Span) : Prop :=
  ∃ d ∈ reports, d.code.text = "H010" ∧ d.span = span

namespace BoundTree

/-- The first row that fits the recorded types of the operands is recorded, and its result as the
type; or no row fits, which is reported. -/
def BinaryVerdict (bound : BoundTree) (reports : List Diagnostic) (node : Node)
    (operator : BinaryOperator) (left right : Expression) : Prop :=
  ∃ leftType rightType, bound.type? left.node.id = some leftType ∧
    bound.type? right.node.id = some rightType ∧
    ((∃ before row behind, BoundBinary.table = before ++ row :: behind ∧
        row.Fits operator leftType rightType ∧
        (∀ earlier ∈ before, ¬ earlier.Fits operator leftType rightType) ∧
        bound.node? node.id = some (.binary row) ∧ bound.type? node.id = some row.result) ∨
      ((∀ row ∈ BoundBinary.table, ¬ row.Fits operator leftType rightType) ∧
        bound.node? node.id = none ∧ bound.type? node.id = some .any ∧
        Unmatched reports node.span))

def UnaryVerdict (bound : BoundTree) (reports : List Diagnostic) (node : Node)
    (operator : UnaryOperator) (operand : Expression) : Prop :=
  ∃ type, bound.type? operand.node.id = some type ∧
    ((∃ row, row.operator = operator ∧ type.isAssignableTo row.operand = true ∧
        row = BoundUnary.row operator ∧
        bound.node? node.id = some (.unary row) ∧ bound.type? node.id = some row.result) ∨
      (type.isAssignableTo (BoundUnary.row operator).operand = false ∧
        bound.node? node.id = none ∧ bound.type? node.id = some .any ∧
        Unmatched reports node.span))

/-- What is recorded and reported about an expression. -/
def Settles (bound : BoundTree) (reports : List Diagnostic) : Expression → Prop
  | .binary node operator left right => bound.BinaryVerdict reports node operator left right
  | .unary node operator operand => bound.UnaryVerdict reports node operator operand
  | .call node _ _ => ∃ parameters, bound.node? node.id = some (.call parameters)
  | _ => True

end BoundTree

theorem BoundBinary.accepts_iff {operator : BinaryOperator} {left right : StaticType}
    {row : BoundBinary} :
    row.accepts operator left right = true ↔ row.Fits operator left right := by
  simp only [accepts, Fits, Bool.and_eq_true, beq_iff_eq, and_assoc]

theorem BoundBinary.exists_first {operator : BinaryOperator} {left right : StaticType}
    {row : BoundBinary} (h : resolve? operator left right = some row) :
    ∃ before behind, table = before ++ row :: behind ∧ row.Fits operator left right ∧
      ∀ earlier ∈ before, ¬ earlier.Fits operator left right := by
  obtain ⟨haccepts, before, behind, htable, hbefore⟩ := List.find?_eq_some_iff_append.mp h
  refine ⟨before, behind, htable, accepts_iff.mp haccepts, fun earlier hearlier hfits => ?_⟩
  have hnot := hbefore earlier hearlier
  rw [accepts_iff.mpr hfits] at hnot
  cases hnot

theorem BoundBinary.not_fits {operator : BinaryOperator} {left right : StaticType}
    (h : resolve? operator left right = none) :
    ∀ row ∈ table, ¬ row.Fits operator left right := fun row hrow hfits =>
  List.find?_eq_none.mp h row hrow (accepts_iff.mpr hfits)

/-- The signature of the function that the binder takes an expression to name. -/
def Binder.signatureOf? (b : Binder) : Expression → Option Signature
  | .name _ x => (b.scopes.findSome? (·.get? x)).bind (·.signature)
  | _ => none

/-- The parameters of that function, or none if it names no function. -/
def Binder.parametersOf (b : Binder) (callee : Expression) : List String :=
  match b.signatureOf? callee with
  | some signature => signature.parameters.map (·.1)
  | none => []

theorem Expression.id_mem_ids (e : Expression) : e.node.id ∈ e.ids := by
  cases e <;> simp [Expression.node, Expression.ids]

namespace BindM

open Binder (Frame Fresh)

def Types (node : Node) (action : BindM StaticType) : Prop :=
  ∀ b, (after action b).bound.type? node.id = some (action.run b).1

theorem types_typed (node : Node) (type : StaticType) : Types node (typed node type) :=
  fun b => (type?_insertType b.bound node.id type node.id).trans (if_pos rfl)

theorem Types.bind {α : Type} {node : Node} {action : BindM α} {f : α → BindM StaticType}
    (h : ∀ x, Types node (f x)) : Types node (action >>= f) :=
  fun b => h (action.run b).1 (after action b)

theorem types_expression (e : Expression) : Types e.node (expression e) := by
  cases e with
  | literal node value => exact types_typed node _
  | name node name =>
    refine .bind fun found => ?_
    cases found with
    | none => exact .bind fun _ => types_typed node _
    | some declaration => exact types_typed node _
  | paren node inner => exact .bind fun _ => types_typed node _
  | unary node operator operand =>
    have hrest : ∀ type, Types node (bindUnary node operator type) := by
      intro type
      unfold bindUnary
      split <;> exact .bind fun _ => types_typed node _
    rw [expression_unary]
    refine .bind fun type => ?_
    dsimp only
    split
    · exact .bind fun _ => hrest type
    · exact hrest type
  | binary node operator left right =>
    exact .bind fun _ => .bind fun _ => .bind fun _ => types_typed node _
  | assign node operator target value =>
    refine .bind fun valueType => ?_
    cases target with
    | name targetNode name => exact .bind fun _ => types_typed node _
    | _ => exact .bind fun _ => .bind fun _ => types_typed node _
  | object node properties => exact .bind fun _ => types_typed node _
  | call node callee arguments =>
    exact .bind fun _ => .bind fun _ => .bind fun _ => types_typed node _
  | member node object name => exact .bind fun _ => .bind fun _ => types_typed node _
  | element node object index =>
    exact .bind fun _ => .bind fun _ => .bind fun _ => types_typed node _
  | hole node => exact types_typed node _

theorem unmatched_report {fault : BindingFault} (h : fault.code = .noMatchingOperator) (span : Span)
    (b : Binder) : Unmatched (after (report fault span) b).diagnostics.toList span := by
  have hpush : (after (report fault span) b).diagnostics.toList =
      b.diagnostics.toList ++ [⟨fault.code, .error, fault.message, span⟩] := Array.toList_push
  refine ⟨⟨fault.code, .error, fault.message, span⟩, ?_, ?_, rfl⟩
  · rw [hpush]
    exact List.mem_append_right _ List.mem_cons_self
  · change fault.code.text = "H010"
    rw [h]
    rfl

theorem recorded_binary (node : Node) (operator : BinaryOperator) (left right : StaticType)
    (b : Binder) :
    let last := after (bindBinary node operator left right >>= fun result =>
      typed node (result.getD .any)) b
    (∃ row, BoundBinary.resolve? operator left right = some row ∧
      last.bound.node? node.id = some (.binary row) ∧
      last.bound.type? node.id = some row.result) ∨
    (BoundBinary.resolve? operator left right = none ∧
      last.bound.node? node.id = b.bound.node? node.id ∧
      last.bound.type? node.id = some .any ∧ Unmatched last.diagnostics.toList node.span) := by
  cases hresolve : BoundBinary.resolve? operator left right with
  | some row =>
    have hbinary : bindBinary node operator left right = (do
        record node.id (.binary row)
        return some row.result) := by simp only [bindBinary, hresolve]
    rw [hbinary]
    refine .inl ⟨row, rfl, ?_, ?_⟩
    · exact (node?_insert b.bound node.id _ node.id).trans (if_pos rfl)
    · exact types_typed node row.result (after (record node.id (.binary row)) b)
  | none =>
    have hbinary : bindBinary node operator left right = (do
        report (.noBinaryOperator operator left right) node.span
        return none) := by simp only [bindBinary, hresolve]
    rw [hbinary]
    have htyped := types_typed node .any
      (after (report (.noBinaryOperator operator left right) node.span) b)
    exact .inr ⟨rfl, rfl, htyped, unmatched_report rfl node.span b⟩

theorem recorded_unary (node : Node) (operator : UnaryOperator) (type : StaticType) (b : Binder) :
    let last := after (bindUnary node operator type) b
    (type.isAssignableTo (BoundUnary.row operator).operand = true ∧
      last.bound.node? node.id = some (.unary (BoundUnary.row operator)) ∧
      last.bound.type? node.id = some (BoundUnary.row operator).result) ∨
    (type.isAssignableTo (BoundUnary.row operator).operand = false ∧
      last.bound.node? node.id = b.bound.node? node.id ∧
      last.bound.type? node.id = some .any ∧ Unmatched last.diagnostics.toList node.span) := by
  cases hfits : type.isAssignableTo (BoundUnary.row operator).operand with
  | true =>
    have hresolve : BoundUnary.resolve? operator type = some (BoundUnary.row operator) :=
      if_pos hfits
    have hunary : bindUnary node operator type = (do
        record node.id (.unary (BoundUnary.row operator))
        typed node (BoundUnary.row operator).result) := by simp only [bindUnary, hresolve]
    rw [hunary]
    refine .inl ⟨rfl, ?_, ?_⟩
    · exact (node?_insert b.bound node.id _ node.id).trans (if_pos rfl)
    · exact types_typed node _ (after (record node.id _) b)
  | false =>
    have hresolve : BoundUnary.resolve? operator type = none :=
      if_neg (by rw [hfits]; exact Bool.false_ne_true)
    have hunary : bindUnary node operator type = (do
        report (.noUnaryOperator operator type) node.span
        typed node .any) := by simp only [bindUnary, hresolve]
    rw [hunary]
    have htyped := types_typed node .any
      (after (report (.noUnaryOperator operator type) node.span) b)
    exact .inr ⟨rfl, rfl, htyped, unmatched_report rfl node.span b⟩

def Calls {α : Type} (node : Node) (names : List String) (action : BindM α) : Prop :=
  ∀ b, (after action b).bound.node? node.id = some (.call names)

theorem Calls.bind {α β : Type} {node : Node} {names : List String} {action : BindM α}
    {f : α → BindM β} (h : ∀ x, Calls node names (f x)) : Calls node names (action >>= f) :=
  fun b => h (action.run b).1 (after action b)

theorem recorded_call (node : Node) (callee : Expression) (type : StaticType)
    (arguments : List (StaticType × Span)) (b : Binder) :
    (after (bindCall node callee type arguments) b).bound.node? node.id =
      some (.call (b.parametersOf callee)) := by
  have hrecord : ∀ (names : List String) (result : StaticType),
      Calls node names (do record node.id (.call names); return result) := fun _ _ b =>
    (node?_insert b.bound node.id _ node.id).trans (if_pos rfl)
  have hfound : ∀ rest : Option Signature → BindM StaticType,
      after (signature? callee >>= rest) b = after (rest (b.signatureOf? callee)) b := by
    intro rest
    cases callee <;> rfl
  rw [bindCall, hfound, Binder.parametersOf]
  cases b.signatureOf? callee with
  | none =>
    dsimp only
    split
    · exact hrecord _ _ b
    · exact hrecord _ _ b
    · exact Calls.bind (fun _ => hrecord _ _) b
  | some signature =>
    have hchecked : Calls node (signature.parameters.map (·.1)) (do
        checkArguments signature.parameters arguments
        record node.id (.call (signature.parameters.map (·.1)))
        return signature.result) := .bind fun _ => hrecord _ _
    dsimp only
    split
    · exact Calls.bind (fun _ => hchecked) b
    · exact hchecked b

theorem settles_binary {node : Node} {operator : BinaryOperator} {left right : Expression}
    (hids : (Expression.binary node operator left right).ids.Nodup) {b : Binder}
    (hfresh : Fresh (Expression.binary node operator left right).ids b) :
    let last := after (expression (.binary node operator left right)) b
    last.bound.BinaryVerdict last.diagnostics.toList node operator left right := by
  have hnew : b.bound.node? node.id = none := (hfresh _ (Expression.id_mem_ids _)).1
  rw [Expression.ids, List.append_assoc] at hids
  obtain ⟨hleftIds, hrest, hapart⟩ := List.nodup_append.mp hids
  obtain ⟨hrightIds, -, hlast⟩ := List.nodup_append.mp hrest
  have hleft := (walks_expression left hleftIds b).1
  have hleftType := types_expression left b
  have hright := (walks_expression right hrightIds (after (expression left) b)).1
  have hrightType := types_expression right (after (expression left) b)
  have hrecorded := recorded_binary node operator ((expression left).run b).1
    ((expression right).run (after (expression left) b)).1
    (after (expression right) (after (expression left) b))
  intro last
  have hown : Frame [node.id] (after (expression right) (after (expression left) b)) last :=
    Touches.bind (touches_bindBinary List.mem_cons_self _ _ _)
      (fun _ => touches_typed List.mem_cons_self _) _
  -- the numbers of the operands and of the node are different
  have hleftNode : left.node.id ∉ right.ids ++ [node.id] := fun hmem =>
    hapart _ left.id_mem_ids _ hmem rfl
  have hrightNode : right.node.id ∉ [node.id] := fun hmem => hlast _ right.id_mem_ids _ hmem rfl
  have hnode : node.id ∉ left.ids ∧ node.id ∉ right.ids :=
    ⟨fun hmem => hapart _ hmem _ (List.mem_append_right _ List.mem_cons_self) rfl,
      fun hmem => hlast _ hmem _ List.mem_cons_self rfl⟩
  rw [List.mem_append, not_or] at hleftNode
  refine ⟨((expression left).run b).1, ((expression right).run (after (expression left) b)).1,
    ?_, ?_, ?_⟩
  · rw [hown.types _ hleftNode.2, hright.types _ hleftNode.1]
    exact hleftType
  · rw [hown.types _ hrightNode]
    exact hrightType
  · rcases hrecorded with ⟨row, hrow, hentry, htype⟩ | ⟨hnone, hentry, htype, hreport⟩
    · obtain ⟨before, behind, htable, hfits, hfirst⟩ := BoundBinary.exists_first hrow
      exact .inl ⟨before, row, behind, htable, hfits, hfirst, hentry, htype⟩
    · refine .inr ⟨BoundBinary.not_fits hnone, ?_, htype, hreport⟩
      exact hentry.trans (((hright.nodes _ hnode.2).trans (hleft.nodes _ hnode.1)).trans hnew)

theorem after_unary (node : Node) (operator : UnaryOperator) (operand : Expression) (b : Binder) :
    ∃ b', Frame [] (after (expression operand) b) b' ∧
      after (expression (.unary node operator operand)) b =
        after (bindUnary node operator ((expression operand).run b).1) b' := by
  let rest := bindUnary node operator ((expression operand).run b).1
  have hafter : after (expression (.unary node operator operand)) b =
      after (if operator == .increment || operator == .decrement then
          checkStepTarget operand >>= fun _ => rest
        else rest) (after (expression operand) b) := by
    rw [expression_unary]
    rfl
  rw [hafter]
  split
  · exact ⟨after (checkStepTarget operand) (after (expression operand) b),
      touches_checkStepTarget operand _, rfl⟩
  · exact ⟨after (expression operand) b, .refl _ _, rfl⟩

theorem settles_unary {node : Node} {operator : UnaryOperator} {operand : Expression}
    (hids : (Expression.unary node operator operand).ids.Nodup) {b : Binder}
    (hfresh : Fresh (Expression.unary node operator operand).ids b) :
    let last := after (expression (.unary node operator operand)) b
    last.bound.UnaryVerdict last.diagnostics.toList node operator operand := by
  have hnew : b.bound.node? node.id = none := (hfresh _ (Expression.id_mem_ids _)).1
  obtain ⟨hoperandIds, -, hapart⟩ := List.nodup_append.mp hids
  have hoperand := (walks_expression operand hoperandIds b).1
  have hoperandType := types_expression operand b
  obtain ⟨b', hchecked, hlast⟩ := after_unary node operator operand b
  have hrecorded := recorded_unary node operator ((expression operand).run b).1 b'
  have hown : Frame [node.id] b'
      (after (bindUnary node operator ((expression operand).run b).1) b') :=
    touches_bindUnary List.mem_cons_self operator _ b'
  rw [← hlast] at hrecorded hown
  intro last
  have hoperandNode : operand.node.id ∉ [node.id] := fun hmem =>
    hapart _ operand.id_mem_ids _ hmem rfl
  have hnode : node.id ∉ operand.ids := fun hmem => hapart _ hmem _ List.mem_cons_self rfl
  refine ⟨((expression operand).run b).1, ?_, ?_⟩
  · rw [hown.types _ hoperandNode, hchecked.types _ List.not_mem_nil]
    exact hoperandType
  · rcases hrecorded with ⟨hfits, hentry, htype⟩ | ⟨hfits, hentry, htype, hreport⟩
    · refine .inl ⟨BoundUnary.row operator, ?_, hfits, rfl, hentry, htype⟩
      cases operator <;> rfl
    · refine .inr ⟨hfits, ?_, htype, hreport⟩
      exact hentry.trans (((hchecked.nodes _ List.not_mem_nil).trans
        (hoperand.nodes _ hnode)).trans hnew)

theorem settles_expression {e : Expression} (hids : e.ids.Nodup) {b : Binder}
    (hfresh : Fresh e.ids b) :
    (after (expression e) b).bound.Settles (after (expression e) b).diagnostics.toList e := by
  cases e with
  | binary node operator left right => exact settles_binary hids hfresh
  | unary node operator operand => exact settles_unary hids hfresh
  | call node callee arguments =>
    exact ⟨_, recorded_call node callee _ _
      (after (expressions arguments) (after (expression callee) b))⟩
  | _ => trivial

end BindM

/-- A verdict depends only on what is recorded under the numbers of the expression. -/
theorem BoundTree.Settles.transfer {bound bound' : BoundTree} {reports reports' : List Diagnostic}
    {e : Expression} (h : bound.Settles reports e)
    (hnodes : ∀ id ∈ e.ids, bound'.node? id = bound.node? id)
    (htypes : ∀ id ∈ e.ids, bound'.type? id = bound.type? id)
    (hreports : reports <+: reports') : bound'.Settles reports' e := by
  have hunmatched : ∀ span, Unmatched reports span → Unmatched reports' span := by
    rintro span ⟨d, hd, hcode⟩
    exact ⟨d, hreports.subset hd, hcode⟩
  have hown := e.id_mem_ids
  cases e with
  | binary node operator left right =>
    obtain ⟨leftType, rightType, hleft, hright, hverdict⟩ := h
    have hleftNode : left.node.id ∈ (Expression.binary node operator left right).ids := by
      simp [Expression.ids, left.id_mem_ids]
    have hrightNode : right.node.id ∈ (Expression.binary node operator left right).ids := by
      simp [Expression.ids, right.id_mem_ids]
    refine ⟨leftType, rightType, (htypes _ hleftNode).trans hleft,
      (htypes _ hrightNode).trans hright, ?_⟩
    rcases hverdict with ⟨before, row, behind, htable, hfits, hfirst, hentry, htype⟩ |
      ⟨hnone, hentry, htype, hreport⟩
    · exact .inl ⟨before, row, behind, htable, hfits, hfirst, (hnodes _ hown).trans hentry,
        (htypes _ hown).trans htype⟩
    · exact .inr ⟨hnone, (hnodes _ hown).trans hentry, (htypes _ hown).trans htype,
        hunmatched _ hreport⟩
  | unary node operator operand =>
    obtain ⟨type, hoperand, hverdict⟩ := h
    have hoperandNode : operand.node.id ∈ (Expression.unary node operator operand).ids := by
      simp [Expression.ids, operand.id_mem_ids]
    refine ⟨type, (htypes _ hoperandNode).trans hoperand, ?_⟩
    rcases hverdict with ⟨row, hoperator, hfits, hrow, hentry, htype⟩ |
      ⟨hfits, hentry, htype, hreport⟩
    · exact .inl ⟨row, hoperator, hfits, hrow, (hnodes _ hown).trans hentry,
        (htypes _ hown).trans htype⟩
    · exact .inr ⟨hfits, (hnodes _ hown).trans hentry, (htypes _ hown).trans htype,
        hunmatched _ hreport⟩
  | call node callee arguments =>
    obtain ⟨parameters, hentry⟩ := h
    exact ⟨parameters, (hnodes _ hown).trans hentry⟩
  | _ => trivial

namespace BindM

/-- The walk comes to the expression, or it is a name. -/
def Reached (visits : List Visit) (e : Expression) : Prop :=
  (∃ node name, e = .name node name) ∨ ∃ b, (e, b) ∈ visits

theorem Reached.mono {visits visits' : List Visit} {e : Expression} (h : Reached visits e)
    (hsub : visits ⊆ visits') : Reached visits' e := by
  rcases h with hname | ⟨b, hb⟩
  · exact .inl hname
  · exact .inr ⟨b, hsub hb⟩

def Reaches (visits : List Visit) (parts : List Expression) : Prop :=
  ∀ part ∈ parts, Reached visits part

variable {visits visits' : List Visit} {parts parts' : List Expression}

theorem reaches_nil : Reaches visits [] := fun _ hpart => absurd hpart List.not_mem_nil

theorem Reaches.cons {e : Expression} {b : Binder} (h : Reaches visits parts) :
    Reaches ((e, b) :: visits) (e :: parts) := by
  intro part hpart
  rcases List.mem_cons.mp hpart with rfl | hpart
  · exact .inr ⟨b, List.mem_cons_self⟩
  · exact (h part hpart).mono (List.subset_cons_self _ _)

theorem Reaches.name {node : Node} {name : String} (h : Reaches visits parts) :
    Reaches visits (.name node name :: parts) := by
  intro part hpart
  rcases List.mem_cons.mp hpart with rfl | hpart
  · exact .inl ⟨node, name, rfl⟩
  · exact h part hpart

theorem Reaches.append (h : Reaches visits parts) (h' : Reaches visits' parts') :
    Reaches (visits ++ visits') (parts ++ parts') := by
  intro part hpart
  rcases List.mem_append.mp hpart with hpart | hpart
  · exact (h part hpart).mono (List.subset_append_left _ _)
  · exact (h' part hpart).mono (List.subset_append_right _ _)

theorem Reaches.swapped (h : Reaches visits parts) (h' : Reaches visits' parts') :
    Reaches (visits' ++ visits) (parts ++ parts') := by
  intro part hpart
  rcases List.mem_append.mp hpart with hpart | hpart
  · exact (h part hpart).mono (List.subset_append_right _ _)
  · exact (h' part hpart).mono (List.subset_append_left _ _)

mutual

theorem reaches_parts : (e : Expression) → (b : Binder) → Reaches (BindM.visits e b) e.parts
  | .literal _ _, _ => reaches_nil.cons
  | .name _ _, _ => reaches_nil.cons
  | .paren _ inner, b => (reaches_parts inner b).cons
  | .unary _ _ operand, b => (reaches_parts operand b).cons
  | .binary _ _ left right, b => ((reaches_parts left b).append (reaches_parts right _)).cons
  | .assign _ _ target value, b => by
    have hvalue := reaches_parts value b
    have htarget := reaches_parts target
    rw [Expression.parts]
    cases target with
    | name targetNode name => exact hvalue.name.cons
    | _ => exact ((htarget _).swapped hvalue).cons
  | .object _ properties, b => (reaches_entriesParts properties b).cons
  | .call _ callee arguments, b =>
    ((reaches_parts callee b).append (reaches_listParts arguments _)).cons
  | .member _ inner _, b => (reaches_parts inner b).cons
  | .element _ inner index, b => ((reaches_parts inner b).append (reaches_parts index _)).cons
  | .hole _, _ => reaches_nil.cons
termination_by structural e => e

theorem reaches_listParts : (es : List Expression) → (b : Binder) →
    Reaches (listVisits es b) (Expression.listParts es)
  | [], _ => reaches_nil
  | e :: rest, b => (reaches_parts e b).append (reaches_listParts rest _)
termination_by structural es => es

theorem reaches_entriesParts : (entries : List (Expression × Expression)) → (b : Binder) →
    Reaches (propertyVisits entries b) (Expression.entriesParts entries)
  | [], _ => reaches_nil
  | (key, value) :: rest, b => by
    have hkey := reaches_parts key b
    have hvalue := reaches_parts value
    have hrest := reaches_entriesParts rest
    rw [Expression.entriesParts, List.append_assoc]
    cases key with
    | name keyNode name => exact ((hvalue b).append (hrest _)).name
    | _ => exact hkey.append ((hvalue _).append (hrest _))
termination_by structural entries => entries

end

theorem reaches_optionalParts (value : Option Expression) (b : Binder) :
    Reaches (optionalVisits value b) (Statement.optionalParts value) := by
  cases value with
  | none => exact reaches_nil
  | some e => exact reaches_parts e b

mutual

theorem reaches_statementParts : (s : Statement) → (b : Binder) →
    Reaches (statementVisits s b) s.parts
  | .expression _ e, b => reaches_parts e b
  | .letDecl _ _ _ _ initial, b => reaches_optionalParts initial b
  | .fnDecl _ _ _ _ body, _ => reaches_statementsParts body _
  | .block _ body, _ => reaches_statementsParts body _
  | .branch _ condition body none, b => by
    rw [Statement.parts, List.append_assoc]
    exact (reaches_parts condition b).append ((reaches_statementParts body _).append reaches_nil)
  | .branch _ condition body (some other), b => by
    rw [Statement.parts, List.append_assoc]
    exact (reaches_parts condition b).append
      ((reaches_statementParts body _).append (reaches_statementParts other _))
  | .giveBack _ value, b => reaches_optionalParts value b
  | .hole _, _ => reaches_nil
termination_by structural s => s

theorem reaches_statementsParts : (ss : List Statement) → (b : Binder) →
    Reaches (statementsVisits ss b) (Statement.listParts ss)
  | [], _ => reaches_nil
  | s :: rest, b => (reaches_statementParts s b).append (reaches_statementsParts rest _)
termination_by structural ss => ss

end

end BindM

def Globals.visits (globals : Globals) (tree : SyntaxTree) : List BindM.Visit :=
  BindM.statementsVisits tree.statements { scopes := [globals] }

namespace Globals

variable {tree : SyntaxTree}

/-- What the visits find lasts to the end if the nodes have different numbers. -/
theorem lasts_of_visit (hids : (Statement.listIds tree.statements).Nodup) (globals : Globals)
    {visit : BindM.Visit} (hvisit : visit ∈ globals.visits tree) :
    visit.Lasts (BindM.after (BindM.statements tree.statements) { scopes := [globals] }) := by
  have hempty : Binder.Fresh (Statement.listIds tree.statements) { scopes := [globals] } :=
    fun id _ => ⟨by simp [BoundTree.node?], by simp [BoundTree.type?]⟩
  have hwalk := BindM.walks_statements tree.statements hids { scopes := [globals] }
  exact (hwalk.2 hempty visit hvisit).2

theorem reached_expressions (globals : Globals) {e : Expression} (he : e ∈ tree.expressions) :
    BindM.Reached (globals.visits tree) e :=
  BindM.reaches_statementsParts tree.statements { scopes := [globals] } e he

theorem settles_of_expressions (hids : (Statement.listIds tree.statements).Nodup)
    (globals : Globals) {e : Expression} (he : e ∈ tree.expressions) :
    (globals.bind tree).bound.Settles (globals.bind tree).diagnostics e := by
  rcases reached_expressions globals he with ⟨node, name, rfl⟩ | ⟨b, hvisit⟩
  · trivial
  · have hlast := lasts_of_visit hids globals hvisit
    exact (BindM.settles_expression hlast.nodup hlast.fresh).transfer hlast.nodes hlast.types
      hlast.reports

end Globals

theorem SyntaxTree.nodup_ids_read (source : String) :
    (Statement.listIds (SyntaxTree.read source).tree.statements).Nodup := by
  obtain ⟨count, hids⟩ :=
    SyntaxTree.ids_ofTokens (tokenize source).tokens ⟨0, source.utf8ByteSize⟩
  exact hids ▸ List.nodup_range

/-- For every text and all globals known before it: the verdict on each operator and call of its
tree is recorded or reported. The walk comes to all of them. Nothing is recorded under the numbers
of an expression before the walk comes to it, and what is recorded there when the walk leaves it is
never overwritten. -/
theorem operators_have_recorded_verdicts (source : String) (globals : Globals) :
    let tree := (SyntaxTree.read source).tree
    let binding := globals.bind tree
    (∀ e ∈ tree.expressions,
        binding.bound.Settles binding.diagnostics e ∧ BindM.Reached (globals.visits tree) e) ∧
      ∀ visit ∈ globals.visits tree,
        let left := BindM.after (BindM.expression visit.1) visit.2
        ∀ id ∈ visit.1.ids,
          (visit.2.bound.node? id = none ∧ visit.2.bound.type? id = none) ∧
            binding.bound.node? id = left.bound.node? id ∧
            binding.bound.type? id = left.bound.type? id := by
  intro tree binding
  have hids : (Statement.listIds tree.statements).Nodup := SyntaxTree.nodup_ids_read source
  -- of the reader only the numbering matters
  clear_value tree
  constructor
  · intro e he
    exact ⟨Globals.settles_of_expressions hids globals he, Globals.reached_expressions globals he⟩
  · intro visit hvisit left id hid
    have hlast := Globals.lasts_of_visit hids globals hvisit
    exact ⟨hlast.fresh id hid, hlast.nodes id hid, hlast.types id hid⟩

end StackScript
