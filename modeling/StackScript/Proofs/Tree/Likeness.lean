import StackScript.Proofs.Tree.Bare

set_option autoImplicit false

/-!
# Trees of the same form

Two trees are alike if they differ in nothing but the places of their parts and the numbers of their
nodes. How the numbers may differ is left open, so that what depends on the numbers alone, such as
what is recorded for them, can be compared as well.
-/
namespace StackScript

/-- Whether two numbers are that far apart, the first one below a bound. -/
def Apart (offset limit i j : Nat) : Prop := j = i + offset ∧ i < limit

theorem Node.id_of_bare {offset : Nat} {node node' : Node} (h : node.bare offset = node'.bare 0) :
    node'.id = node.id + offset :=
  (congrArg Node.id h).symm

theorem Name.text_of_bare {name name' : Name} (h : name.bare = name'.bare) :
    name.text = name'.text :=
  (congrArg Name.text h : name.bare.text = name'.bare.text)

namespace Expression

mutual

inductive Like (same : Nat → Nat → Prop) : Expression → Expression → Prop where
  | literal {node node' : Node} {value : Literal} (number : same node.id node'.id) :
      Like same (.literal node value) (.literal node' value)
  | name {node node' : Node} {text : String} (number : same node.id node'.id) :
      Like same (.name node text) (.name node' text)
  | paren {node node' : Node} {inner inner' : Expression} (number : same node.id node'.id)
      (inside : Like same inner inner') : Like same (.paren node inner) (.paren node' inner')
  | unary {node node' : Node} {operator : UnaryOperator} {operand operand' : Expression}
      (number : same node.id node'.id) (inside : Like same operand operand') :
      Like same (.unary node operator operand) (.unary node' operator operand')
  | binary {node node' : Node} {operator : BinaryOperator} {left left' right right' : Expression}
      (number : same node.id node'.id) (first : Like same left left')
      (second : Like same right right') :
      Like same (.binary node operator left right) (.binary node' operator left' right')
  | assign {node node' : Node} {operator : Option BinaryOperator}
      {target target' value value' : Expression} (number : same node.id node'.id)
      (first : Like same target target') (second : Like same value value') :
      Like same (.assign node operator target value) (.assign node' operator target' value')
  | object {node node' : Node} {properties properties' : List (Expression × Expression)}
      (number : same node.id node'.id) (inside : EntriesLike same properties properties') :
      Like same (.object node properties) (.object node' properties')
  | call {node node' : Node} {callee callee' : Expression} {arguments arguments' : List Expression}
      (number : same node.id node'.id) (first : Like same callee callee')
      (others : ListLike same arguments arguments') :
      Like same (.call node callee arguments) (.call node' callee' arguments')
  | member {node node' : Node} {inner inner' : Expression} {label label' : Name}
      (number : same node.id node'.id) (inside : Like same inner inner')
      (text : label.text = label'.text) :
      Like same (.member node inner label) (.member node' inner' label')
  | element {node node' : Node} {inner inner' index index' : Expression}
      (number : same node.id node'.id) (first : Like same inner inner')
      (second : Like same index index') :
      Like same (.element node inner index) (.element node' inner' index')
  | hole {node node' : Node} (number : same node.id node'.id) :
      Like same (.hole node) (.hole node')

inductive ListLike (same : Nat → Nat → Prop) : List Expression → List Expression → Prop where
  | nil : ListLike same [] []
  | cons {e e' : Expression} {rest rest' : List Expression} (head : Like same e e')
      (tail : ListLike same rest rest') : ListLike same (e :: rest) (e' :: rest')

inductive EntriesLike (same : Nat → Nat → Prop) :
    List (Expression × Expression) → List (Expression × Expression) → Prop where
  | nil : EntriesLike same [] []
  | cons {key key' value value' : Expression} {rest rest' : List (Expression × Expression)}
      (first : Like same key key') (second : Like same value value')
      (tail : EntriesLike same rest rest') :
      EntriesLike same ((key, value) :: rest) ((key', value') :: rest')

end

variable {same : Nat → Nat → Prop} {offset : Nat}

mutual

theorem like_of_bare :
    (e e' : Expression) → e.bare offset = e'.bare 0 → (∀ id ∈ e.ids, same id (id + offset)) →
      Like same e e'
  | .literal node value, e', h, hids => by
    cases e' with
    | literal node' value' =>
      injection h with hnode hvalue
      subst hvalue
      exact .literal (Node.id_of_bare hnode ▸ hids _ (by simp [ids]))
    | _ => cases h
  | .name node text, e', h, hids => by
    cases e' with
    | name node' text' =>
      injection h with hnode htext
      subst htext
      exact .name (Node.id_of_bare hnode ▸ hids _ (by simp [ids]))
    | _ => cases h
  | .paren node inner, e', h, hids => by
    cases e' with
    | paren node' inner' =>
      injection h with hnode hinner
      exact .paren (Node.id_of_bare hnode ▸ hids _ (by simp [ids]))
        (like_of_bare inner inner' hinner fun id hid => hids id (by simp [ids, hid]))
    | _ => cases h
  | .unary node operator operand, e', h, hids => by
    cases e' with
    | unary node' operator' operand' =>
      injection h with hnode hoperator hoperand
      subst hoperator
      exact .unary (Node.id_of_bare hnode ▸ hids _ (by simp [ids]))
        (like_of_bare operand operand' hoperand fun id hid => hids id (by simp [ids, hid]))
    | _ => cases h
  | .binary node operator left right, e', h, hids => by
    cases e' with
    | binary node' operator' left' right' =>
      injection h with hnode hoperator hleft hright
      subst hoperator
      exact .binary (Node.id_of_bare hnode ▸ hids _ (by simp [ids]))
        (like_of_bare left left' hleft fun id hid => hids id (by simp [ids, hid]))
        (like_of_bare right right' hright fun id hid => hids id (by simp [ids, hid]))
    | _ => cases h
  | .assign node operator target value, e', h, hids => by
    cases e' with
    | assign node' operator' target' value' =>
      injection h with hnode hoperator htarget hvalue
      subst hoperator
      exact .assign (Node.id_of_bare hnode ▸ hids _ (by simp [ids]))
        (like_of_bare target target' htarget fun id hid => hids id (by simp [ids, hid]))
        (like_of_bare value value' hvalue fun id hid => hids id (by simp [ids, hid]))
    | _ => cases h
  | .object node properties, e', h, hids => by
    cases e' with
    | object node' properties' =>
      injection h with hnode hproperties
      exact .object (Node.id_of_bare hnode ▸ hids _ (by simp [ids]))
        (entriesLike_of_bare properties properties' hproperties
          fun id hid => hids id (by simp [ids, hid]))
    | _ => cases h
  | .call node callee arguments, e', h, hids => by
    cases e' with
    | call node' callee' arguments' =>
      injection h with hnode hcallee harguments
      exact .call (Node.id_of_bare hnode ▸ hids _ (by simp [ids]))
        (like_of_bare callee callee' hcallee fun id hid => hids id (by simp [ids, hid]))
        (listLike_of_bare arguments arguments' harguments fun id hid => hids id (by simp [ids, hid]))
    | _ => cases h
  | .member node inner label, e', h, hids => by
    cases e' with
    | member node' inner' label' =>
      injection h with hnode hinner hlabel
      exact .member (Node.id_of_bare hnode ▸ hids _ (by simp [ids]))
        (like_of_bare inner inner' hinner fun id hid => hids id (by simp [ids, hid]))
        (Name.text_of_bare hlabel)
    | _ => cases h
  | .element node inner index, e', h, hids => by
    cases e' with
    | element node' inner' index' =>
      injection h with hnode hinner hindex
      exact .element (Node.id_of_bare hnode ▸ hids _ (by simp [ids]))
        (like_of_bare inner inner' hinner fun id hid => hids id (by simp [ids, hid]))
        (like_of_bare index index' hindex fun id hid => hids id (by simp [ids, hid]))
    | _ => cases h
  | .hole node, e', h, hids => by
    cases e' with
    | hole node' =>
      injection h with hnode
      exact .hole (Node.id_of_bare hnode ▸ hids _ (by simp [ids]))
    | _ => cases h
termination_by structural e => e

theorem listLike_of_bare :
    (es es' : List Expression) → bareList offset es = bareList 0 es' →
      (∀ id ∈ listIds es, same id (id + offset)) → ListLike same es es'
  | [], es', h, _ => by
    cases es' with
    | nil => exact .nil
    | cons _ _ => cases h
  | e :: rest, es', h, hids => by
    cases es' with
    | nil => cases h
    | cons e' rest' =>
      injection h with hhead htail
      exact .cons (like_of_bare e e' hhead fun id hid => hids id (by simp [listIds, hid]))
        (listLike_of_bare rest rest' htail fun id hid => hids id (by simp [listIds, hid]))
termination_by structural es => es

theorem entriesLike_of_bare :
    (entries entries' : List (Expression × Expression)) →
      bareEntries offset entries = bareEntries 0 entries' →
      (∀ id ∈ entriesIds entries, same id (id + offset)) → EntriesLike same entries entries'
  | [], entries', h, _ => by
    cases entries' with
    | nil => exact .nil
    | cons _ _ => cases h
  | (key, value) :: rest, entries', h, hids => by
    cases entries' with
    | nil => cases h
    | cons entry' rest' =>
      injection h with hhead htail
      injection hhead with hkey hvalue
      exact .cons (like_of_bare key entry'.1 hkey fun id hid => hids id (by simp [entriesIds, hid]))
        (like_of_bare value entry'.2 hvalue fun id hid => hids id (by simp [entriesIds, hid]))
        (entriesLike_of_bare rest rest' htail fun id hid => hids id (by simp [entriesIds, hid]))
termination_by structural entries => entries

end

mutual

theorem Like.mono {other : Nat → Nat → Prop} (hmono : ∀ i j, same i j → other i j) :
    (e : Expression) → ∀ {e' : Expression}, Like same e e' → Like other e e'
  | .literal _ _, _, .literal number => .literal (hmono _ _ number)
  | .name _ _, _, .name number => .name (hmono _ _ number)
  | .paren _ inner, _, .paren number inside => .paren (hmono _ _ number) (inside.mono hmono inner)
  | .unary _ _ operand, _, .unary number inside =>
    .unary (hmono _ _ number) (inside.mono hmono operand)
  | .binary _ _ left right, _, .binary number first second =>
    .binary (hmono _ _ number) (first.mono hmono left) (second.mono hmono right)
  | .assign _ _ target value, _, .assign number first second =>
    .assign (hmono _ _ number) (first.mono hmono target) (second.mono hmono value)
  | .object _ properties, _, .object number inside =>
    .object (hmono _ _ number) (inside.mono hmono properties)
  | .call _ callee arguments, _, .call number first others =>
    .call (hmono _ _ number) (first.mono hmono callee) (others.mono hmono arguments)
  | .member _ inner _, _, .member number inside text =>
    .member (hmono _ _ number) (inside.mono hmono inner) text
  | .element _ inner index, _, .element number first second =>
    .element (hmono _ _ number) (first.mono hmono inner) (second.mono hmono index)
  | .hole _, _, .hole number => .hole (hmono _ _ number)
termination_by structural e => e

theorem ListLike.mono {other : Nat → Nat → Prop} (hmono : ∀ i j, same i j → other i j) :
    (es : List Expression) → ∀ {es' : List Expression}, ListLike same es es' → ListLike other es es'
  | [], _, .nil => .nil
  | e :: rest, _, .cons head tail => .cons (head.mono hmono e) (tail.mono hmono rest)
termination_by structural es => es

theorem EntriesLike.mono {other : Nat → Nat → Prop} (hmono : ∀ i j, same i j → other i j) :
    (entries : List (Expression × Expression)) → ∀ {entries' : List (Expression × Expression)},
      EntriesLike same entries entries' → EntriesLike other entries entries'
  | [], _, .nil => .nil
  | (key, value) :: rest, _, .cons first second tail =>
    .cons (first.mono hmono key) (second.mono hmono value) (tail.mono hmono rest)
termination_by structural entries => entries

end

end Expression

namespace Statement

variable {same : Nat → Nat → Prop} {offset : Nat}

inductive OptionalLike (same : Nat → Nat → Prop) : Option Expression → Option Expression → Prop where
  | none : OptionalLike same none none
  | some {e e' : Expression} (inside : e.Like same e') : OptionalLike same (some e) (some e')

mutual

inductive Like (same : Nat → Nat → Prop) : Statement → Statement → Prop where
  | expression {node node' : Node} {value value' : Expression} (number : same node.id node'.id)
      (inside : value.Like same value') :
      Like same (.expression node value) (.expression node' value')
  | letDecl {node node' : Node} {isMutable : Bool} {name name' : Name}
      {type type' : Option TypeRef} {initial initial' : Option Expression}
      (number : same node.id node'.id) (text : name.text = name'.text)
      (annotated : type.map TypeRef.bare = type'.map TypeRef.bare)
      (inside : OptionalLike same initial initial') :
      Like same (.letDecl node isMutable name type initial)
        (.letDecl node' isMutable name' type' initial')
  | fnDecl {node node' : Node} {name name' : Name} {parameters parameters' : List Parameter}
      {result result' : Option TypeRef} {body body' : List Statement}
      (number : same node.id node'.id) (text : name.text = name'.text)
      (taken : parameters.map Parameter.bare = parameters'.map Parameter.bare)
      (annotated : result.map TypeRef.bare = result'.map TypeRef.bare)
      (inside : ListLike same body body') :
      Like same (.fnDecl node name parameters result body)
        (.fnDecl node' name' parameters' result' body')
  | block {node node' : Node} {body body' : List Statement} (number : same node.id node'.id)
      (inside : ListLike same body body') : Like same (.block node body) (.block node' body')
  | branch {node node' : Node} {condition condition' : Expression} {body body' : Statement}
      (number : same node.id node'.id) (tested : condition.Like same condition')
      (taken : Like same body body') :
      Like same (.branch node condition body none) (.branch node' condition' body' none)
  | branchElse {node node' : Node} {condition condition' : Expression}
      {body body' other other' : Statement} (number : same node.id node'.id)
      (tested : condition.Like same condition') (taken : Like same body body')
      (otherwise : Like same other other') :
      Like same (.branch node condition body (some other))
        (.branch node' condition' body' (some other'))
  | giveBack {node node' : Node} {value value' : Option Expression}
      (number : same node.id node'.id) (inside : OptionalLike same value value') :
      Like same (.giveBack node value) (.giveBack node' value')
  | hole {node node' : Node} (number : same node.id node'.id) :
      Like same (.hole node) (.hole node')

inductive ListLike (same : Nat → Nat → Prop) : List Statement → List Statement → Prop where
  | nil : ListLike same [] []
  | cons {s s' : Statement} {rest rest' : List Statement} (head : Like same s s')
      (tail : ListLike same rest rest') : ListLike same (s :: rest) (s' :: rest')

end

theorem bare_branch (node : Node) (condition : Expression) (body : Statement)
    (otherwise : Option Statement) :
    (Statement.branch node condition body otherwise).bare offset =
      .branch (node.bare offset) (condition.bare offset) (body.bare offset)
        (otherwise.map (bare offset)) := by
  cases otherwise <;> rfl

theorem optionalLike_of_bare {value value' : Option Expression}
    (h : value.map (Expression.bare offset) = value'.map (Expression.bare 0))
    (hids : ∀ id ∈ optionalIds value, same id (id + offset)) : OptionalLike same value value' := by
  cases value with
  | none =>
    cases value' with
    | none => exact .none
    | some _ => cases h
  | some e =>
    cases value' with
    | none => cases h
    | some e' => exact .some (Expression.like_of_bare e e' (Option.some.inj h) hids)

mutual

theorem like_of_bare :
    (s s' : Statement) → s.bare offset = s'.bare 0 → (∀ id ∈ s.ids, same id (id + offset)) →
      Like same s s'
  | .expression node value, s', h, hids => by
    cases s' with
    | expression node' value' =>
      injection h with hnode hvalue
      exact .expression (Node.id_of_bare hnode ▸ hids _ (by simp [ids]))
        (Expression.like_of_bare value value' hvalue fun id hid => hids id (by simp [ids, hid]))
    | _ => simp only [bare, bare_branch, reduceCtorEq] at h
  | .letDecl node isMutable name type initial, s', h, hids => by
    cases s' with
    | letDecl node' isMutable' name' type' initial' =>
      injection h with hnode hmutable hname htype hinitial
      subst hmutable
      exact .letDecl (Node.id_of_bare hnode ▸ hids _ (by simp [ids])) (Name.text_of_bare hname) htype
        (optionalLike_of_bare hinitial fun id hid => hids id (by simp [ids, hid]))
    | _ => simp only [bare, bare_branch, reduceCtorEq] at h
  | .fnDecl node name parameters result body, s', h, hids => by
    cases s' with
    | fnDecl node' name' parameters' result' body' =>
      injection h with hnode hname hparameters hresult hbody
      exact .fnDecl (Node.id_of_bare hnode ▸ hids _ (by simp [ids])) (Name.text_of_bare hname)
        hparameters hresult
        (listLike_of_bare body body' hbody fun id hid => hids id (by simp [ids, hid]))
    | _ => simp only [bare, bare_branch, reduceCtorEq] at h
  | .block node body, s', h, hids => by
    cases s' with
    | block node' body' =>
      injection h with hnode hbody
      exact .block (Node.id_of_bare hnode ▸ hids _ (by simp [ids]))
        (listLike_of_bare body body' hbody fun id hid => hids id (by simp [ids, hid]))
    | _ => simp only [bare, bare_branch, reduceCtorEq] at h
  | .branch node condition body none, s', h, hids => by
    cases s' with
    | branch node' condition' body' otherwise' =>
      rw [bare_branch, bare_branch] at h
      injection h with hnode hcondition hbody hother
      cases otherwise' with
      | some _ => cases hother
      | none =>
        exact .branch (Node.id_of_bare hnode ▸ hids _ (by simp [ids]))
          (Expression.like_of_bare condition condition' hcondition
            fun id hid => hids id (by simp [ids, hid]))
          (like_of_bare body body' hbody fun id hid => hids id (by simp [ids, hid]))
    | _ => simp only [bare, reduceCtorEq] at h
  | .branch node condition body (some other), s', h, hids => by
    cases s' with
    | branch node' condition' body' otherwise' =>
      rw [bare_branch, bare_branch] at h
      injection h with hnode hcondition hbody hother
      cases otherwise' with
      | none => cases hother
      | some other' =>
        exact .branchElse (Node.id_of_bare hnode ▸ hids _ (by simp [ids]))
          (Expression.like_of_bare condition condition' hcondition
            fun id hid => hids id (by simp [ids, hid]))
          (like_of_bare body body' hbody fun id hid => hids id (by simp [ids, hid]))
          (like_of_bare other other' (Option.some.inj hother)
            fun id hid => hids id (by simp [ids, hid]))
    | _ => simp only [bare, reduceCtorEq] at h
  | .giveBack node value, s', h, hids => by
    cases s' with
    | giveBack node' value' =>
      injection h with hnode hvalue
      exact .giveBack (Node.id_of_bare hnode ▸ hids _ (by simp [ids]))
        (optionalLike_of_bare hvalue fun id hid => hids id (by simp [ids, hid]))
    | _ => simp only [bare, bare_branch, reduceCtorEq] at h
  | .hole node, s', h, hids => by
    cases s' with
    | hole node' =>
      injection h with hnode
      exact .hole (Node.id_of_bare hnode ▸ hids _ (by simp [ids]))
    | _ => simp only [bare, bare_branch, reduceCtorEq] at h
termination_by structural s => s

theorem listLike_of_bare :
    (ss ss' : List Statement) → bareList offset ss = bareList 0 ss' →
      (∀ id ∈ listIds ss, same id (id + offset)) → ListLike same ss ss'
  | [], ss', h, _ => by
    cases ss' with
    | nil => exact .nil
    | cons _ _ => cases h
  | s :: rest, ss', h, hids => by
    cases ss' with
    | nil => cases h
    | cons s' rest' =>
      injection h with hhead htail
      exact .cons (like_of_bare s s' hhead fun id hid => hids id (by simp [listIds, hid]))
        (listLike_of_bare rest rest' htail fun id hid => hids id (by simp [listIds, hid]))
termination_by structural ss => ss

end

theorem OptionalLike.mono {other : Nat → Nat → Prop} (hmono : ∀ i j, same i j → other i j)
    {value value' : Option Expression} (h : OptionalLike same value value') :
    OptionalLike other value value' := by
  cases h with
  | none => exact .none
  | some inside => exact .some (inside.mono hmono _)

mutual

theorem Like.mono {other : Nat → Nat → Prop} (hmono : ∀ i j, same i j → other i j) :
    (s : Statement) → ∀ {s' : Statement}, Like same s s' → Like other s s'
  | .expression _ value, _, .expression number inside =>
    .expression (hmono _ _ number) (inside.mono hmono value)
  | .letDecl _ _ _ _ _, _, .letDecl number text annotated inside =>
    .letDecl (hmono _ _ number) text annotated (inside.mono hmono)
  | .fnDecl _ _ _ _ body, _, .fnDecl number text taken annotated inside =>
    .fnDecl (hmono _ _ number) text taken annotated (inside.mono hmono body)
  | .block _ body, _, .block number inside => .block (hmono _ _ number) (inside.mono hmono body)
  | .branch _ condition body none, _, .branch number tested taken =>
    .branch (hmono _ _ number) (tested.mono hmono condition) (taken.mono hmono body)
  | .branch _ condition body (some alternative), _, .branchElse number tested taken otherwise =>
    .branchElse (hmono _ _ number) (tested.mono hmono condition) (taken.mono hmono body)
      (otherwise.mono hmono alternative)
  | .giveBack _ _, _, .giveBack number inside => .giveBack (hmono _ _ number) (inside.mono hmono)
  | .hole _, _, .hole number => .hole (hmono _ _ number)
termination_by structural s => s

theorem ListLike.mono {other : Nat → Nat → Prop} (hmono : ∀ i j, same i j → other i j) :
    (ss : List Statement) → ∀ {ss' : List Statement}, ListLike same ss ss' → ListLike other ss ss'
  | [], _, .nil => .nil
  | s :: rest, _, .cons head tail => .cons (head.mono hmono s) (tail.mono hmono rest)
termination_by structural ss => ss

end

end Statement

end StackScript
