import StackScript.Binding.Bind
import StackScript.Code.Generate
import StackScript.Proofs.Tree.Bare
import StackScript.Proofs.Tree.Spans

set_option autoImplicit false

/-!
# What binding leaves without code

Main statement: `Globals.gaps_bind`. Binding and code generation walk over the tree apart from each
other, and only the meanings recorded under the numbers of nodes go from one to the other. Where the
numbers are all different, each part of a program without code has a report of binding. The reports
stand at spans of the tree.
-/
namespace StackScript

/-- A fault of this code may leave a part of the program without code. -/
def DiagnosticCode.leavesGap : DiagnosticCode → Bool
  | .invalidAssignment | .unresolvedName | .noMatchingOperator => true
  | _ => false

namespace Binder

def Gapless (b : Binder) : Prop := ∀ d ∈ b.diagnostics.toList, d.code.leavesGap = false

/-- Between the two binders only the nodes with the given numbers were recorded, and reports were
made at spans in `P` only. If none of them leaves a gap, every bound tree in which these nodes are
as recorded is in `S`. -/
structure Grows (P : Span → Prop) (ids : List Nat) (S : BoundTree → Prop) (b b' : Binder) : Prop where
  placed : (∀ d ∈ b.diagnostics.toList, P d.span) → ∀ d ∈ b'.diagnostics.toList, P d.span
  recorded : ∀ id, id ∉ ids → b'.bound.node? id = b.bound.node? id
  settled : b'.Gapless → b.Gapless ∧
    ∀ bound : BoundTree, (∀ id ∈ ids, bound.node? id = b'.bound.node? id) → S bound

variable {P : Span → Prop} {ids more : List Nat} {S T : BoundTree → Prop} {b b' b'' : Binder}

theorem Grows.refl (b : Binder) : Grows P [] (fun _ => True) b b :=
  ⟨fun hb => hb, fun _ _ => rfl, fun hend => ⟨hend, fun _ _ => trivial⟩⟩

theorem Grows.trans (h : Grows P ids S b b') (h' : Grows P more T b' b'')
    (hdisjoint : ∀ id ∈ ids, ∀ other ∈ more, id ≠ other) :
    Grows P (ids ++ more) (fun bound => S bound ∧ T bound) b b'' where
  placed hb := h'.placed (h.placed hb)
  recorded id hid := by
    rw [h'.recorded id fun hmem => hid (List.mem_append_right _ hmem),
      h.recorded id fun hmem => hid (List.mem_append_left _ hmem)]
  settled hend := by
    obtain ⟨hmiddle, hlater⟩ := h'.settled hend
    obtain ⟨hstart, hfirst⟩ := h.settled hmiddle
    refine ⟨hstart, fun bound hbound => ⟨hfirst bound fun id hid => ?_, hlater bound fun id hid => ?_⟩⟩
    · -- The later actions have not touched the nodes of the first.
      rw [hbound id (List.mem_append_left _ hid)]
      exact h'.recorded id fun hmem => hdisjoint id hid id hmem rfl
    · exact hbound id (List.mem_append_right _ hid)

theorem Grows.mono (h : Grows P ids S b b') (hids : ids ⊆ more) (hS : ∀ bound, S bound → T bound) :
    Grows P more T b b' where
  placed := h.placed
  recorded id hid := h.recorded id fun hmem => hid (hids hmem)
  settled hend := ⟨(h.settled hend).1, fun bound hbound =>
    hS bound ((h.settled hend).2 bound fun id hid => hbound id (hids hid))⟩

end Binder

namespace BindM

open Binder (Grows)

variable {α β : Type} {P : Span → Prop} {ids more : List Nat} {S T : BoundTree → Prop}
  {Q : α → Prop} {R : β → Prop}

/-- Every run of the action records the given nodes only, leaves bound trees that are in `S`, or a
report, and gives a result in `Q`. -/
def Binds (P : Span → Prop) (ids : List Nat) (S : BoundTree → Prop) (Q : α → Prop)
    (action : BindM α) : Prop :=
  ∀ b : Binder, Grows P ids S b (action.run b).2 ∧ Q (action.run b).1

/-- The action records no node. -/
abbrev Passes (P : Span → Prop) (action : BindM α) : Prop :=
  Binds P [] (fun _ => True) (fun _ => True) action

theorem Binds.mono {action : BindM α} (h : Binds P ids S Q action) (hids : ids ⊆ more)
    (hS : ∀ bound, S bound → T bound) : Binds P more T Q action :=
  fun b => ⟨(h b).1.mono hids hS, (h b).2⟩

theorem Binds.bind {action : BindM α} {f : α → BindM β} (h : Binds P ids S Q action)
    (hdisjoint : ∀ id ∈ ids, ∀ other ∈ more, id ≠ other)
    (hf : ∀ x, Q x → Binds P more T R (f x)) :
    Binds P (ids ++ more) (fun bound => S bound ∧ T bound) R (action >>= f) := by
  intro b
  obtain ⟨hfirst, hx⟩ := h b
  obtain ⟨hlater, hy⟩ := hf _ hx (action.run b).2
  exact ⟨hfirst.trans hlater hdisjoint, hy⟩

theorem Binds.andThen {action : BindM α} {f : α → BindM β} (h : Binds P [] S Q action)
    (hf : ∀ x, Binds P ids T R (f x)) :
    Binds P ids (fun bound => S bound ∧ T bound) R (action >>= f) :=
  h.bind (by simp) fun x _ => hf x

theorem Passes.andThen {action : BindM α} {f : α → BindM β} (h : Passes P action)
    (hf : ∀ x, Binds P ids T R (f x)) : Binds P ids T R (action >>= f) :=
  (Binds.andThen h hf).mono (List.Subset.refl _) fun _ hbound => hbound.2

theorem Binds.finish {action : BindM α} {f : α → BindM β} (h : Binds P ids S Q action)
    (hf : ∀ x, Q x → Binds P [] (fun _ => True) R (f x)) : Binds P ids S R (action >>= f) :=
  (h.bind (by simp) hf).mono (by simp) fun _ hbound => hbound.1

theorem Binds.pure {x : α} (hx : Q x) : Binds P [] (fun _ => True) Q (pure x) :=
  fun b => ⟨.refl b, hx⟩

theorem Binds.ofPure {x : α} {f : α → BindM β} (h : Binds P ids S R (f x)) :
    Binds P ids S R (Pure.pure x >>= f) := h

theorem Binds.checked {c : Prop} [Decidable c] {check : BindM Unit} {rest : Unit → BindM β}
    (hcheck : Passes P check) (hrest : ∀ x, Binds P ids S R (rest x)) :
    Binds P ids S R (if c then check >>= rest else rest ()) := by
  split
  · exact Passes.andThen hcheck hrest
  · exact hrest ()

theorem passes_modify {f : Binder → Binder} (hreported : ∀ b, (f b).diagnostics = b.diagnostics)
    (hrecorded : ∀ b, (f b).bound.nodes = b.bound.nodes) : Passes P (modify f : BindM Unit) := by
  refine fun b => ⟨⟨fun hb => ?_, fun id _ => ?_, fun hend => ⟨?_, fun _ _ => trivial⟩⟩, trivial⟩
  · exact hreported b ▸ hb
  · exact congrArg (·[id]?) (hrecorded b)
  · exact fun d hd => hend d (hreported b ▸ hd)

theorem passes_get : Passes P (get : BindM Binder) := fun b => ⟨.refl b, trivial⟩

theorem grows_report (fault : BindingFault) {span : Span} (h : P span) (b : Binder) :
    Grows P [] (fun _ => fault.code.leavesGap = false) b ((report fault span).run b).2 := by
  have hpush : ((report fault span).run b).2.diagnostics.toList =
      b.diagnostics.toList ++ [⟨fault.code, .error, fault.message, span⟩] := Array.toList_push
  refine ⟨fun hb d hd => ?_, fun _ _ => rfl, fun hend => ⟨fun d hd => ?_, fun _ _ => ?_⟩⟩
  · rw [hpush] at hd
    obtain hold | hnew := List.mem_append.mp hd
    · exact hb d hold
    · exact List.mem_singleton.mp hnew ▸ h
  · exact hend d (hpush ▸ List.mem_append_left _ hd)
  · exact hend ⟨fault.code, .error, fault.message, span⟩
      (hpush ▸ List.mem_append_right _ List.mem_cons_self)

theorem passes_report (fault : BindingFault) {span : Span} (h : P span) :
    Passes P (report fault span) :=
  fun b => ⟨(grows_report fault h b).mono (List.Subset.refl _) fun _ _ => trivial, trivial⟩

theorem binds_report {fault : BindingFault} (hfault : fault.code.leavesGap = true) {span : Span}
    (h : P span) : Binds P [] (fun _ => False) (fun _ => True) (report fault span) := by
  refine fun b => ⟨(grows_report fault h b).mono (List.Subset.refl _) fun _ hnone => ?_, trivial⟩
  rw [hfault] at hnone
  exact absurd hnone (by decide)

theorem passes_lookup (name : String) : Passes P (lookup name) :=
  passes_get.andThen fun _ => .pure trivial

theorem passes_typed (node : Node) (type : StaticType) : Passes P (typed node type) := by
  unfold typed
  exact Passes.andThen (passes_modify (fun _ => rfl) fun _ => rfl) fun _ => .pure trivial

theorem binds_record (id : Nat) (node : BoundNode) :
    Binds P [id] (fun bound => bound.node? id = some node) (fun _ => True) (record id node) := by
  have hnode : ∀ b : Binder, ∀ other, (b.bound.insert id node).node? other =
      if id = other then some node else b.bound.node? other := by
    intro b other
    simp only [BoundTree.insert, BoundTree.node?, Std.TreeMap.getElem?_insert]
    split <;> simp_all
  refine fun b => ⟨⟨fun hb => hb, fun other hother => ?_, fun hend => ⟨hend, fun bound hbound => ?_⟩⟩,
    trivial⟩
  · have hne : id ≠ other := fun h => hother (List.mem_singleton.mpr h.symm)
    exact (hnode b other).trans (if_neg hne)
  · exact (hbound id List.mem_cons_self).trans ((hnode b id).trans (if_pos rfl))

theorem passes_declare (name : String) (declaration : Declaration) :
    Passes P (declare name declaration) := by
  refine passes_modify (fun b => ?_) fun b => ?_ <;> split <;> rfl

theorem passes_openScope (scope : NameTable Declaration) : Passes P (openScope scope) :=
  passes_modify (fun _ => rfl) fun _ => rfl

theorem passes_closeScope : Passes P closeScope := passes_modify (fun _ => rfl) fun _ => rfl

theorem passes_openFunction (result : Option StaticType) : Passes P (openFunction result) :=
  passes_modify (fun _ => rfl) fun _ => rfl

theorem passes_closeFunction : Passes P closeFunction := passes_modify (fun _ => rfl) fun _ => rfl

theorem passes_checkAssignable (actual expected : StaticType) {span : Span} (h : P span) :
    Passes P (checkAssignable actual expected span) := by
  unfold checkAssignable
  split
  · exact passes_report _ h
  · exact .pure trivial

theorem passes_checkIndexable (type : StaticType) {span : Span} (h : P span) :
    Passes P (checkIndexable type span) := by
  unfold checkIndexable
  split
  · exact passes_report _ h
  · exact .pure trivial

theorem binds_checkStepTarget {target : Expression} (h : target.Within P) :
    Binds P [] (fun _ => ∀ origin, Generate.stepGaps target origin = []) (fun _ => True)
      (checkStepTarget target) := by
  unfold checkStepTarget
  split
  · refine Binds.mono (S := fun _ => True) ?_ (List.Subset.refl _) fun _ _ _ => rfl
    refine (passes_lookup _).andThen fun found => ?_
    split
    · split
      · exact passes_report _ h
      · exact .pure trivial
    · exact .pure trivial
  · exact (binds_report rfl h.span).mono (List.Subset.refl _) fun _ => False.elim

theorem binds_bindBinary {node : Node} (operator : BinaryOperator) (left right : StaticType)
    (h : P node.span) :
    Binds P [node.id] (fun bound => (bound.operation? node).isSome) (fun _ => True)
      (bindBinary node operator left right) := by
  unfold bindBinary
  split
  · rename_i row _
    refine Binds.finish (Q := fun _ => True) ?_ fun _ _ => .pure trivial
    refine (binds_record node.id (.binary row)).mono (List.Subset.refl _) fun bound hbound => ?_
    rw [BoundTree.operation?, hbound]
    rfl
  · exact ((binds_report rfl h).finish fun _ _ => .pure trivial).mono (List.nil_subset _)
      fun _ => False.elim

theorem passes_checkArguments (parameters : List (String × StaticType))
    {arguments : List (StaticType × Span)} (h : ∀ argument ∈ arguments, P argument.2) :
    Passes P (checkArguments parameters arguments) := by
  induction parameters generalizing arguments with
  | nil => exact .pure trivial
  | cons parameter parameters ih =>
    cases arguments with
    | nil => exact .pure trivial
    | cons argument arguments =>
      obtain ⟨hfirst, hrest⟩ := List.forall_mem_cons.mp h
      exact (passes_checkAssignable _ _ hfirst).andThen fun _ => ih hrest

theorem passes_signature? (callee : Expression) : Passes P (signature? callee) := by
  unfold signature?
  split
  · exact (passes_lookup _).andThen fun _ => .pure trivial
  · exact .pure trivial

theorem binds_bindCall {node : Node} {callee : Expression} (type : StaticType)
    {arguments : List (StaticType × Span)} (hnode : P node.span) (hcallee : callee.Within P)
    (harguments : ∀ argument ∈ arguments, P argument.2) :
    Binds P [node.id] (fun _ => True) (fun _ => True) (bindCall node callee type arguments) := by
  have hrecord : ∀ (names : List String) (result : StaticType), Binds P [node.id] (fun _ => True)
      (fun _ => True) (do record node.id (.call names); return result) := fun names result =>
    ((binds_record node.id (.call names)).finish fun _ _ => .pure trivial).mono
      (List.Subset.refl _) fun _ _ => trivial
  refine (passes_signature? callee).andThen fun found => ?_
  cases found with
  | none =>
    dsimp only
    split
    · exact hrecord _ _
    · exact hrecord _ _
    · exact (passes_report _ hcallee.span).andThen fun _ => hrecord _ _
  | some signature =>
    exact .checked (passes_report _ hnode) fun _ =>
      (passes_checkArguments _ harguments).andThen fun _ => hrecord _ _

theorem binds_bindAssignment {node target : Node} (operator : Option BinaryOperator) (name : String)
    (value : StaticType) {span : Span} (hnode : P node.span) (htarget : P target.span)
    (hspan : P span) :
    Binds P [node.id] (fun bound => operator.isSome → (bound.operation? node).isSome)
      (fun _ => True) (bindAssignment node operator target name value span) := by
  refine (passes_lookup name).andThen fun found => ?_
  cases found with
  | none =>
    exact ((binds_report rfl htarget).finish fun _ _ => .pure trivial).mono (List.nil_subset _)
      fun _ => False.elim
  | some declaration =>
    have hstored : ∀ result, Passes P (do
        checkAssignable result declaration.type span
        return result) :=
      fun _ => (passes_checkAssignable _ _ hspan).andThen fun _ => .pure trivial
    refine (passes_typed _ _).andThen fun _ => .checked (passes_report _ htarget) fun _ => ?_
    cases operator with
    | none => exact (hstored value).mono (List.nil_subset _) fun _ _ hsome => by simp at hsome
    | some operator =>
      refine ((binds_bindBinary operator _ _ hnode).finish fun result _ => ?_).mono
        (List.Subset.refl _) fun _ hbound _ => hbound
      cases result with
      | none => exact .pure trivial
      | some result => exact hstored result

mutual

theorem binds_expression : (e : Expression) → e.ids.Nodup → e.Within P →
    Binds P e.ids (fun bound => Generate.gaps bound e = []) (fun _ => True) (expression e)
  | .literal node value, _, _ =>
    (passes_typed node _).mono (List.nil_subset _) fun _ _ => rfl
  | .name node name, _, hwithin => by
    refine Binds.mono (S := fun _ => True) ?_ (List.nil_subset _) fun _ _ => rfl
    refine (passes_lookup name).andThen fun found => ?_
    cases found with
    | none => exact (passes_report _ hwithin).andThen fun _ => passes_typed node _
    | some declaration => exact passes_typed node _
  | .paren node inner, hids, hwithin => by
    have hinner := binds_expression inner (List.nodup_append.mp hids).1 hwithin.2
    exact (hinner.finish fun _ _ => passes_typed node _).mono (List.subset_append_left _ _)
      fun _ hbound => hbound
  | .unary node operator operand, hids, hwithin => by
    obtain ⟨hnodup, -, hdisjoint⟩ := List.nodup_append.mp hids
    have hoperand := binds_expression operand hnodup hwithin.2
    have hstep := binds_checkStepTarget hwithin.2
    have hrest : ∀ type, Binds P [node.id] (fun _ => True) (fun _ => True)
        (match BoundUnary.resolve? operator type with
          | some row => do
            record node.id (.unary row)
            typed node row.result
          | none => do
            report (.noUnaryOperator operator type) node.span
            typed node .any) := by
      intro type
      split
      · exact ((binds_record node.id _).finish fun _ _ => passes_typed node _).mono
          (List.Subset.refl _) fun _ _ => trivial
      · exact ((passes_report _ hwithin.1).andThen fun _ => passes_typed node _).mono
          (List.nil_subset _) fun _ _ => trivial
    cases operator with
    | increment | decrement =>
      exact (hoperand.bind hdisjoint fun type _ => hstep.andThen fun _ => hrest type).mono
        (List.Subset.refl _) fun _ hbound => hbound.2.1 node.span
    | _ =>
      exact (hoperand.bind hdisjoint fun type _ => hrest type).mono (List.Subset.refl _)
        fun _ hbound => hbound.1
  | .binary node operator left right, hids, hwithin => by
    rw [Expression.ids, List.append_assoc] at hids ⊢
    obtain ⟨hleft, hrest, hapart⟩ := List.nodup_append.mp hids
    obtain ⟨hright, -, hlast⟩ := List.nodup_append.mp hrest
    have hoperator : ∀ leftType rightType, Binds P [node.id]
        (fun bound => (bound.operation? node).isSome) (fun _ => True) (do
          let result ← bindBinary node operator leftType rightType
          typed node (result.getD .any)) := fun _ _ =>
      (binds_bindBinary operator _ _ hwithin.1).finish fun _ _ => passes_typed node _
    refine ((binds_expression left hleft hwithin.2.1).bind hapart fun _ _ =>
      (binds_expression right hright hwithin.2.2).bind hlast fun _ _ => hoperator _ _).mono
        (List.Subset.refl _) fun bound hbound => ?_
    obtain ⟨hleftGaps, hrightGaps, hbinary⟩ := hbound
    obtain ⟨operation, hoperation⟩ := Option.isSome_iff_exists.mp hbinary
    simp only [Generate.gaps, hoperation, hleftGaps, hrightGaps, List.append_nil]
  | .assign node operator target value, hids, hwithin => by
    obtain ⟨hnode, htarget, hvalue⟩ := hwithin
    obtain ⟨hparts, -, hlast⟩ := List.nodup_append.mp hids
    obtain ⟨htargetIds, hvalueIds, hapart⟩ := List.nodup_append.mp hparts
    have hbindsValue := binds_expression value hvalueIds hvalue
    have hbindsTarget := binds_expression target htargetIds htarget
    cases target with
    | name targetNode name =>
      refine (hbindsValue.bind (fun id hid => hlast id (List.mem_append_right _ hid))
        fun valueType _ =>
          (binds_bindAssignment operator name valueType hnode htarget hvalue.span).finish
            fun _ _ => passes_typed node _).mono ?_ fun bound hbound => ?_
      · rw [Expression.ids, List.append_assoc]
        exact List.subset_append_right _ _
      · obtain ⟨hgaps, hoperator⟩ := hbound
        cases operator with
        | none => exact hgaps
        | some operator =>
          obtain ⟨operation, hoperation⟩ := Option.isSome_iff_exists.mp (hoperator rfl)
          simp only [Generate.gaps, hoperation, hgaps]
    | _ =>
      -- The value is bound before the target, against the order of their numbers.
      refine (hbindsValue.bind (fun id hid other hother => (hapart other hother id hid).symm)
        fun valueType _ => (binds_report rfl htarget.span).andThen fun _ =>
          hbindsTarget.finish fun _ _ => passes_typed node _).mono ?_ fun _ hbound =>
            hbound.2.1.elim
      rw [Expression.ids]
      exact List.append_subset.mpr ⟨List.subset_append_of_subset_left _ (List.subset_append_right _ _),
        List.subset_append_of_subset_left _ (List.subset_append_left _ _)⟩
  | .object node entries, hids, hwithin => by
    have hentries := binds_properties entries (List.nodup_append.mp hids).1 hwithin.2
    exact (hentries.finish fun _ _ => passes_typed node _).mono (List.subset_append_left _ _)
      fun _ hbound => hbound
  | .call node callee arguments, hids, hwithin => by
    obtain ⟨hnode, hcallee, harguments⟩ := hwithin
    rw [Expression.ids, List.append_assoc] at hids ⊢
    obtain ⟨hcalleeIds, hrest, hapart⟩ := List.nodup_append.mp hids
    obtain ⟨hargumentIds, -, hlast⟩ := List.nodup_append.mp hrest
    refine ((binds_expression callee hcalleeIds hcallee).bind hapart fun type _ =>
      (binds_expressions arguments hargumentIds harguments).bind hlast fun types htypes =>
        (binds_bindCall type hnode hcallee htypes).finish fun _ _ => passes_typed node _).mono
          (List.Subset.refl _) fun bound hbound => ?_
    simp only [Generate.gaps, hbound.1, hbound.2.1, List.append_nil]
  | .member node inner _, hids, hwithin => by
    have hinner := binds_expression inner (List.nodup_append.mp hids).1 hwithin.2.1
    refine (hinner.finish fun _ _ => ?_).mono (List.subset_append_left _ _) fun _ hbound => hbound
    exact (passes_checkIndexable _ hwithin.2.1.span).andThen fun _ => passes_typed node _
  | .element node inner index, hids, hwithin => by
    obtain ⟨hnode, hinner, hindex⟩ := hwithin
    obtain ⟨hinnerIds, hindexIds, hapart⟩ :=
      List.nodup_append.mp (List.nodup_append.mp hids).1
    refine ((binds_expression inner hinnerIds hinner).bind hapart fun type _ =>
      (binds_expression index hindexIds hindex).finish fun _ _ =>
        (passes_checkIndexable type hinner.span).andThen fun _ => passes_typed node _).mono
          (List.subset_append_left _ _) fun bound hbound => ?_
    simp only [Generate.gaps, hbound.1, hbound.2, List.append_nil]
  | .hole node, _, _ => (passes_typed node _).mono (List.nil_subset _) fun _ _ => rfl
termination_by structural e => e

theorem binds_expressions : (es : List Expression) → (Expression.listIds es).Nodup →
    Expression.ListWithin P es →
    Binds P (Expression.listIds es) (fun bound => Generate.listGaps bound es = [])
      (fun types => ∀ argument ∈ types, P argument.2) (expressions es)
  | [], _, _ => Binds.mono (S := fun _ => True) (.pure (by simp)) (List.nil_subset _) fun _ _ => rfl
  | e :: rest, hids, hwithin => by
    obtain ⟨hfirstIds, hrestIds, hapart⟩ := List.nodup_append.mp hids
    refine ((binds_expression e hfirstIds hwithin.1).bind hapart fun type _ =>
      (binds_expressions rest hrestIds hwithin.2).finish fun types htypes =>
        .pure fun argument hargument => ?_).mono (List.Subset.refl _) fun bound hbound => ?_
    · obtain rfl | hlater := List.mem_cons.mp hargument
      · exact hwithin.1.span
      · exact htypes argument hlater
    · rw [Generate.listGaps, hbound.1, hbound.2, List.append_nil]
termination_by structural es => es

theorem binds_properties : (entries : List (Expression × Expression)) →
    (Expression.entriesIds entries).Nodup → Expression.EntriesWithin P entries →
    Binds P (Expression.entriesIds entries) (fun bound => Generate.propertyGaps bound entries = [])
      (fun _ => True) (properties entries)
  | [], _, _ => Binds.mono (S := fun _ => True) (.pure trivial) (List.nil_subset _) fun _ _ => rfl
  | (key, value) :: rest, hids, hwithin => by
    rw [Expression.entriesIds, List.append_assoc] at hids ⊢
    obtain ⟨hkeyIds, hothers, hapart⟩ := List.nodup_append.mp hids
    obtain ⟨hvalueIds, hrestIds, hlast⟩ := List.nodup_append.mp hothers
    have hkey := binds_expression key hkeyIds hwithin.1
    have hvalue := (binds_expression value hvalueIds hwithin.2.1).bind hlast fun _ _ =>
      binds_properties rest hrestIds hwithin.2.2
    cases key with
    | name _ _ =>
      refine Binds.mono hvalue (List.subset_append_right _ _) fun bound hbound => ?_
      simp only [Generate.propertyGaps, Generate.gaps, hbound.1, hbound.2, List.append_nil]
    | _ =>
      refine (hkey.bind hapart fun _ _ => hvalue).mono (List.Subset.refl _) fun bound hbound => ?_
      rw [Generate.propertyGaps, hbound.1, hbound.2.1, hbound.2.2]
      rfl
termination_by structural entries => entries

end

theorem passes_resolveType {ref : TypeRef} (h : P ref.span) : Passes P (resolveType ref) := by
  have hreports : ∀ names : List String,
      Passes P (names.forM fun name => report (.unknownType name) ref.span) := by
    intro names
    induction names with
    | nil => exact .pure trivial
    | cons name names ih => exact (passes_report _ h).andThen fun _ => ih
  exact (hreports _).andThen fun _ => .pure trivial

theorem passes_resolveType? {ref : Option TypeRef} (h : ∀ r ∈ ref, P r.span) :
    Passes P (resolveType? ref) := by
  cases ref with
  | none => exact .pure trivial
  | some ref => exact (passes_resolveType (h ref rfl)).andThen fun _ => .pure trivial

theorem binds_letDeclaration (isMutable : Bool) (name : Name) {type : Option TypeRef}
    {initial : Option Expression} (hids : (Statement.optionalIds initial).Nodup)
    (htype : ∀ r ∈ type, P r.span) (hinitial : ∀ e ∈ initial, e.Within P) :
    Binds P (Statement.optionalIds initial) (fun bound => Generate.optionalGaps bound initial = [])
      (fun _ => True) (letDeclaration isMutable name type initial) := by
  have hdeclare : ∀ type, Passes P (declare name.text { type, isMutable }) :=
    fun type => passes_declare name.text _
  unfold letDeclaration
  cases initial with
  | none =>
    refine Binds.mono (S := fun _ => True) ?_ (List.nil_subset _) fun _ _ => rfl
    exact .ofPure ((passes_resolveType? htype).andThen fun _ => hdeclare _)
  | some e =>
    have hvalue : Binds P e.ids (fun bound => Generate.gaps bound e = []) (fun _ => True)
        (some <$> expression e) := fun b =>
      ⟨(binds_expression e hids (hinitial e rfl) b).1, trivial⟩
    refine hvalue.finish fun value _ => (passes_resolveType? htype).andThen fun annotated => ?_
    cases value with
    | none => exact hdeclare _
    | some actual =>
      cases annotated with
      | none => exact hdeclare _
      | some expected =>
        exact (passes_checkAssignable _ _ (hinitial e rfl).span).andThen fun _ => hdeclare _

theorem passes_parameterTypes {parameters : List Parameter}
    (h : ∀ parameter ∈ parameters, parameter.Within P) : Passes P (parameterTypes parameters) := by
  induction parameters with
  | nil => exact .pure trivial
  | cons parameter rest ih =>
    obtain ⟨hfirst, hrest⟩ := List.forall_mem_cons.mp h
    exact (passes_resolveType? hfirst.2).andThen fun type => (ih hrest).andThen fun types =>
      .pure trivial

theorem passes_checkResult (type : StaticType) {span : Span} (h : P span) :
    Passes P (checkResult type span) := by
  refine passes_get.andThen fun b => ?_
  split
  · exact passes_checkAssignable _ _ h
  · exact .pure trivial

mutual

theorem binds_statement : (s : Statement) → s.ids.Nodup → s.Within P →
    Binds P s.ids (fun bound => Generate.statementGaps bound s = []) (fun _ => True) (statement s)
  | .expression node e, hids, hwithin => by
    have he := binds_expression e (List.nodup_append.mp hids).1 hwithin.2
    exact (he.finish fun _ _ => .pure trivial).mono (List.subset_append_left _ _)
      fun _ hbound => hbound
  | .letDecl node isMutable name type initial, hids, hwithin =>
    (binds_letDeclaration isMutable name (List.nodup_append.mp hids).1 hwithin.2.2.1
      hwithin.2.2.2).mono (List.subset_append_left _ _) fun _ hbound => hbound
  | .fnDecl node name parameters result body, hids, hwithin => by
    obtain ⟨hnode, hname, hparameters, hresult, hbody⟩ := hwithin
    have hbinds := binds_statements body (List.nodup_append.mp hids).1 hbody
    refine Binds.mono ?_ (List.subset_append_left _ _) fun _ hbound => hbound
    refine (passes_parameterTypes hparameters).andThen fun types =>
      (passes_resolveType? hresult).andThen fun resultType => (passes_declare _ _).andThen fun _ =>
        (passes_openScope _).andThen fun _ => (passes_openFunction _).andThen fun _ =>
          hbinds.finish fun _ _ => passes_closeFunction.andThen fun _ => passes_closeScope
  | .block node body, hids, hwithin => by
    have hbinds := binds_statements body (List.nodup_append.mp hids).1 hwithin.2
    exact ((passes_openScope _).andThen fun _ => hbinds.finish fun _ _ => passes_closeScope).mono
      (List.subset_append_left _ _) fun _ hbound => hbound
  | .branch node condition body none, hids, hwithin => by
    obtain ⟨hnode, hcondition, hbody, -⟩ := hwithin
    rw [Statement.ids, List.append_nil] at hids ⊢
    obtain ⟨hconditionIds, hbodyIds, hapart⟩ :=
      List.nodup_append.mp (List.nodup_append.mp hids).1
    refine ((binds_expression condition hconditionIds hcondition).bind hapart fun _ _ =>
      (binds_statement body hbodyIds hbody).finish fun _ _ => .pure trivial).mono
        (List.subset_append_left _ _) fun bound hbound => ?_
    simp only [Generate.statementGaps, hbound.1, hbound.2, List.append_nil]
  | .branch node condition body (some other), hids, hwithin => by
    obtain ⟨hnode, hcondition, hbody, hother⟩ := hwithin
    rw [Statement.ids, List.append_assoc condition.ids] at hids ⊢
    obtain ⟨hconditionIds, hrest, hapart⟩ := List.nodup_append.mp (List.nodup_append.mp hids).1
    obtain ⟨hbodyIds, hotherIds, hlast⟩ := List.nodup_append.mp hrest
    refine ((binds_expression condition hconditionIds hcondition).bind hapart fun _ _ =>
      (binds_statement body hbodyIds hbody).bind hlast fun _ _ =>
        binds_statement other hotherIds hother).mono (List.subset_append_left _ _)
          fun bound hbound => ?_
    simp only [Generate.statementGaps, hbound.1, hbound.2.1, hbound.2.2, List.append_nil]
  | .giveBack node value, hids, hwithin => by
    cases value with
    | none => exact (passes_checkResult _ hwithin.1).mono (List.nil_subset _) fun _ _ => rfl
    | some e =>
      have he := binds_expression e (List.nodup_append.mp hids).1 (hwithin.2 e rfl)
      exact (he.finish fun _ _ => passes_checkResult _ hwithin.1).mono
        (List.subset_append_left _ _) fun _ hbound => hbound
  | .hole node, _, _ => Binds.mono (S := fun _ => True) (.pure trivial) (List.nil_subset _)
      fun _ _ => rfl
termination_by structural s => s

theorem binds_statements : (ss : List Statement) → (Statement.listIds ss).Nodup →
    Statement.ListWithin P ss →
    Binds P (Statement.listIds ss) (fun bound => Generate.statementsGaps bound ss = [])
      (fun _ => True) (statements ss)
  | [], _, _ => Binds.mono (S := fun _ => True) (.pure trivial) (List.nil_subset _) fun _ _ => rfl
  | s :: rest, hids, hwithin => by
    obtain ⟨hfirstIds, hrestIds, hapart⟩ := List.nodup_append.mp hids
    refine ((binds_statement s hfirstIds hwithin.1).bind hapart fun _ _ =>
      binds_statements rest hrestIds hwithin.2).mono (List.Subset.refl _) fun bound hbound => ?_
    rw [Generate.statementsGaps, hbound.1, hbound.2, List.append_nil]
termination_by structural ss => ss

end

end BindM

/-- Binding reports at spans of the tree, and it reports something that leaves a gap if there is
one. -/
theorem Globals.gaps_bind {P : Span → Prop} {tree : SyntaxTree} (globals : Globals)
    (hids : (Statement.listIds tree.statements).Nodup)
    (hwithin : Statement.ListWithin P tree.statements) :
    (∀ d ∈ (globals.bind tree).diagnostics, P d.span) ∧
      (tree.gaps (globals.bind tree).bound ≠ [] →
        ∃ d ∈ (globals.bind tree).diagnostics, d.code.leavesGap = true) := by
  obtain ⟨hgrows, -⟩ := BindM.binds_statements tree.statements hids hwithin { scopes := [globals] }
  refine ⟨hgrows.placed (by simp), fun hgaps => Classical.byContradiction fun hnone => hgaps ?_⟩
  refine (hgrows.settled fun d hd => ?_).2 _ fun _ _ => rfl
  exact Bool.eq_false_iff.mpr fun hleaves => hnone ⟨d, hd, hleaves⟩

end StackScript
