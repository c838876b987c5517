import StackScript.Proofs.Code.Placed
import StackScript.Proofs.Code.Sound
import StackScript.Proofs.Tree.Names

set_option autoImplicit false

/-!
# Generated code is sound

The code of an expression is sound wherever what follows it is sound with one value more on the
stack, and the code of a statement wherever what follows it is sound at all. If the program has gaps
or holes, that is so only as far as no shapes are promised.
-/
namespace StackScript

open Code (Placed Sound)
open Generate

variable {d : Discipline} {bound : BoundTree} {code rest : Code} {pointer blocks : Nat}
  {shape : Shape} {origin : Span}

theorem Code.Sound.moved {other : Nat} (h : Sound d code pointer blocks shape)
    (hother : pointer = other) : Sound d code other blocks shape := hother ▸ h

theorem sound_pushName {name : String} (hcode : Placed code pointer (pushName name origin :: rest))
    (next : Sound d code (pointer + 1) blocks (.name name :: shape)) :
    Sound d code pointer blocks shape :=
  .pushName hcode.getElem? next

theorem sound_loadName {name : String} {loaded : StackEntry}
    (hcode : Placed code pointer (loadName name origin ++ rest))
    (hknows : loaded = .any ∨ loaded = .bound name)
    (next : Sound d code (pointer + 2) blocks (loaded :: shape)) :
    Sound d code pointer blocks shape :=
  .pushName hcode.getElem? (.load hcode.tail.getElem? hknows next)

theorem sound_gap (hcode : Placed code pointer (.plain .noop origin :: rest)) (hexact : ¬ d.exact)
    (next : Sound d code (pointer + 1) blocks (.any :: shape)) : Sound d code pointer blocks shape :=
  .noop hcode.getElem? (fun h => absurd h hexact) next

theorem sound_opcodes (operation : BinaryOperation) {right left : StackEntry}
    (hcode : Placed code pointer (operation.opcodes.map (.plain · origin)))
    (next : Sound d code (pointer + operation.opcodes.length) blocks (.any :: shape)) :
    Sound d code pointer blocks (right :: left :: shape) := by
  cases operation
  case notEqual | greater | greaterOrEqual =>
    exact .binary hcode.getElem? rfl (.unary hcode.tail.getElem? rfl rfl next)
  all_goals exact .binary hcode.getElem? rfl next

theorem sound_step {name : String} {target : Span} {apply undo : Opcode}
    {f g : Value → Value → Except CoercionError Value} (happly : apply.binary? = some f)
    (hundo : undo.binary? = some g) (hstores : d.stores name .any)
    (hcode : Placed code pointer (step name target origin apply undo))
    (next : Sound d code (pointer + 8) blocks (.any :: shape)) :
    Sound d code pointer blocks shape := by
  have hrest := hcode.tail.tail.tail
  have hplain : (Value.int 1).All fun _ => False := .int 1
  refine sound_pushName hcode (sound_loadName hcode.tail (.inl rfl) ?_)
  refine .push hrest.getElem? hplain (.binary hrest.tail.getElem? happly ?_)
  refine .store hrest.tail.tail.getElem? hstores ?_
  refine .push hrest.tail.tail.tail.getElem? hplain ?_
  exact .binary hrest.tail.tail.tail.tail.getElem? hundo next

def SoundExpression (d : Discipline) (bound : BoundTree) (e : Expression) : Prop :=
  ∀ ⦃code : Code⦄ ⦃pointer blocks : Nat⦄ ⦃shape : Shape⦄,
    Placed code pointer (ofExpression bound e) →
    Sound d code (pointer + (ofExpression bound e).length) blocks (.any :: shape) →
    Sound d code pointer blocks shape

/-- A list of expressions leaves many values, so what follows must be sound with any. -/
def SoundExpressions (d : Discipline) (bound : BoundTree) (es : List Expression) : Prop :=
  ∀ ⦃code : Code⦄ ⦃pointer blocks : Nat⦄, Placed code pointer (ofExpressions bound es) →
    (∀ shape, Sound d code (pointer + (ofExpressions bound es).length) blocks shape) →
    ∀ shape, Sound d code pointer blocks shape

def SoundEntries (d : Discipline) (entries : List (Code × Code)) : Prop :=
  ∀ entry ∈ entries, Sound d entry.1 0 0 [] ∧ Sound d entry.2 0 0 []

def Expression.entry : Expression → StackEntry
  | .name _ x => .bound x
  | _ => .any

/-- If the expression is a call, it is one of those promised wherever its code stands. -/
def Discipline.Admits (d : Discipline) (bound : BoundTree) : Expression → Prop
  | .call node callee arguments => ∀ ⦃code start⦄,
      Placed code start (ofExpression bound (.call node callee arguments)) →
      d.calls code (start + (ofExpression bound callee).length) callee.entry (bound.parameters node)
  | _ => True

theorem Discipline.admits_of_calls
    (hcalls : ∀ code place callee names, d.calls code place callee names) (e : Expression) :
    d.Admits bound e := by
  cases e with
  | call node callee arguments => exact fun _ _ _ => hcalls _ _ _ _
  | _ => trivial

/-- What makes the code of an expression sound: the names it stores to and those recorded at its calls
are among those promised, and nothing is missing if shapes are promised. -/
structure Meets (d : Discipline) (bound : BoundTree) (e : Expression) : Prop where
  stores : ∀ x ∈ e.targets, d.stores x .any
  calls : ∀ part ∈ e.parts, d.Admits bound part
  gaps : d.exact → gaps bound e = []
  whole : d.exact → e.isWhole = true

theorem SoundExpression.andThen {e : Expression} (h : SoundExpression d bound e)
    (hcode : Placed code pointer (ofExpression bound e ++ rest))
    (next : Placed code (pointer + (ofExpression bound e).length) rest →
      Sound d code (pointer + (ofExpression bound e).length) blocks (.any :: shape)) :
    Sound d code pointer blocks shape :=
  h hcode.left (next hcode.right)

theorem SoundExpression.alone {e : Expression} (h : SoundExpression d bound e) :
    Sound d (ofExpression bound e) 0 0 [] :=
  h (Code.placed_self _) (.done (by simp))

theorem soundExpression_literal (node : Node) (value : Literal) :
    SoundExpression d bound (.literal node value) := by
  intro code pointer blocks shape hcode next
  cases value with
  | none => exact .pushNone hcode.getElem? next
  | bool b => exact .push hcode.getElem? (.bool b) next
  | int i => exact .push hcode.getElem? (.int i) next
  | float x => exact .push hcode.getElem? (.float x) next
  | char c => exact .push hcode.getElem? (.char c) next
  | string text => exact .push hcode.getElem? (.string text) next

theorem soundExpression_stepOf {operand : Expression} {node : Node} {operator : UnaryOperator}
    {apply undo : Opcode} {f g : Value → Value → Except CoercionError Value}
    (happly : apply.binary? = some f) (hundo : undo.binary? = some g)
    (hstores : ∀ x ∈ operand.asName?.toList, d.stores x .any)
    (hgaps : d.exact → stepGaps operand node.span = [])
    (heq : ofExpression bound (.unary node operator operand) =
      stepOf operand node.span apply undo) :
    SoundExpression d bound (.unary node operator operand) := by
  intro code pointer blocks shape hcode next
  rw [heq] at hcode next
  cases operand with
  | name target name =>
    have hname : d.stores name .any := hstores name (by simp [Expression.asName?])
    exact sound_step happly hundo hname hcode next
  | _ =>
    have hexact : ¬ d.exact := fun h => by simpa [stepGaps] using hgaps h
    exact sound_gap hcode hexact next

theorem soundExpression_unary {operand : Expression} (node : Node) (operator : UnaryOperator)
    (hmeets : Meets d bound (.unary node operator operand))
    (h : Meets d bound operand → SoundExpression d bound operand) :
    SoundExpression d bound (.unary node operator operand) := by
  obtain ⟨hstores, hcalls, hgaps, hwhole⟩ := hmeets
  have hinner : ∀ part ∈ operand.parts, d.Admits bound part :=
    fun part hpart => hcalls part (List.mem_cons_of_mem _ hpart)
  have hplain : ∀ {f : Value → Except CoercionError Value},
      (unaryOpcode operator).binary? = none → (unaryOpcode operator).unary? = some f →
      SoundExpression d bound operand →
      ofExpression bound (.unary node operator operand) =
        ofExpression bound operand ++ [.plain (unaryOpcode operator) node.span] →
      SoundExpression d bound (.unary node operator operand) := by
    intro f hbinary hunary h heq code pointer blocks shape hcode next
    rw [heq] at hcode next
    rw [List.length_append, ← Nat.add_assoc] at next
    exact h.andThen hcode fun hcode => .unary hcode.getElem? hbinary hunary next
  cases operator with
  | increment =>
    refine soundExpression_stepOf rfl rfl (fun x hx => hstores x ?_) hgaps rfl
    exact List.mem_append_left _ hx
  | decrement =>
    refine soundExpression_stepOf rfl rfl (fun x hx => hstores x ?_) hgaps rfl
    exact List.mem_append_left _ hx
  | negate => exact hplain rfl rfl (h ⟨hstores, hinner, hgaps, hwhole⟩) rfl
  | not => exact hplain rfl rfl (h ⟨hstores, hinner, hgaps, hwhole⟩) rfl
  | bitwiseNot => exact hplain rfl rfl (h ⟨hstores, hinner, hgaps, hwhole⟩) rfl

theorem soundExpression_binary {left right : Expression} (node : Node) (operator : BinaryOperator)
    (hmeets : Meets d bound (.binary node operator left right))
    (hleft : Meets d bound left → SoundExpression d bound left)
    (hright : Meets d bound right → SoundExpression d bound right) :
    SoundExpression d bound (.binary node operator left right) := by
  obtain ⟨hstores, hcalls, hgaps, hwhole⟩ := hmeets
  intro code pointer blocks shape hcode next
  simp only [Expression.targets, List.mem_append] at hstores
  simp only [Expression.parts, List.mem_cons, List.mem_append] at hcalls
  simp only [Expression.isWhole, Bool.and_eq_true] at hwhole
  cases hbound : bound.operation? node with
  | none =>
    simp only [gaps, hbound] at hgaps
    simp only [ofExpression, hbound] at hcode next
    exact sound_gap hcode (fun h => absurd (hgaps h) (by simp)) next
  | some operation =>
    simp only [gaps, hbound, List.append_eq_nil_iff] at hgaps
    simp only [ofExpression, hbound, List.append_assoc, List.length_append, List.length_map,
      ← Nat.add_assoc] at hcode next
    have hleft := hleft ⟨fun x hx => hstores x (.inl hx), fun p hp => hcalls p (.inr (.inl hp)),
      fun h => (hgaps h).1, fun h => (hwhole h).1⟩
    have hright := hright ⟨fun x hx => hstores x (.inr hx), fun p hp => hcalls p (.inr (.inr hp)),
      fun h => (hgaps h).2, fun h => (hwhole h).2⟩
    refine hleft.andThen hcode fun hcode => ?_
    exact hright.andThen hcode fun hcode => sound_opcodes operation hcode next

theorem soundExpression_assign {value : Expression} (node : Node) (operator : Option BinaryOperator)
    (target : Expression) (hmeets : Meets d bound (.assign node operator target value))
    (hvalue : Meets d bound value → SoundExpression d bound value) :
    SoundExpression d bound (.assign node operator target value) := by
  obtain ⟨hstores, hcalls, hgaps, hwhole⟩ := hmeets
  intro code pointer blocks shape hcode next
  simp only [Expression.targets, List.mem_append] at hstores
  simp only [Expression.parts, List.mem_cons, List.mem_append] at hcalls
  simp only [Expression.isWhole, Bool.and_eq_true] at hwhole
  cases target with
  | name targetNode name =>
    have hname : d.stores name .any := hstores name (.inl (.inl (by simp [Expression.asName?])))
    have hstoresValue := fun x hx => hstores x (.inr hx)
    have hcallsValue := fun p hp => hcalls p (.inr (.inr hp))
    have hwholeValue := fun h => (hwhole h).2
    cases operator with
    | none =>
      simp only [gaps] at hgaps
      simp only [ofExpression, List.length_append, List.length_cons, List.length_nil] at next
      refine sound_pushName hcode ?_
      refine (hvalue ⟨hstoresValue, hcallsValue, hgaps, hwholeValue⟩).andThen hcode.tail fun hcode => ?_
      exact .store hcode.getElem? hname (next.moved (by omega))
    | some operator =>
      cases hbound : bound.operation? node with
      | none =>
        simp only [gaps, hbound] at hgaps
        simp only [ofExpression, hbound] at hcode next
        exact sound_gap hcode (fun h => absurd (hgaps h) (by simp)) next
      | some operation =>
        simp only [gaps, hbound] at hgaps
        simp only [ofExpression, hbound, List.append_assoc] at hcode
        simp only [ofExpression, hbound, loadName, List.length_append, List.length_cons,
          List.length_nil, List.length_map] at next
        refine sound_pushName hcode (sound_loadName hcode.tail (.inl rfl) ?_)
        refine (hvalue ⟨hstoresValue, hcallsValue, hgaps, hwholeValue⟩).andThen hcode.tail.tail.tail ?_
        intro hcode
        refine sound_opcodes operation hcode.left ?_
        have hstore := hcode.right
        rw [List.length_map] at hstore
        exact .store hstore.getElem? hname (next.moved (by omega))
  | _ =>
    exact sound_gap hcode (fun h => absurd (hgaps h) (by simp [gaps])) next

theorem soundExpression_object (node : Node) {entries : List (Expression × Expression)}
    (h : SoundEntries d (ofProperties bound entries)) :
    SoundExpression d bound (.object node entries) := by
  intro code pointer blocks shape hcode next
  exact .object hcode.getElem? (fun entry he => (h entry he).1) (fun entry he => (h entry he).2) next

theorem soundExpression_call {callee : Expression} {arguments : List Expression} (node : Node)
    (hcalls : d.Admits bound (.call node callee arguments))
    (hcallee : SoundExpression d bound callee) (harguments : SoundExpressions d bound arguments) :
    SoundExpression d bound (.call node callee arguments) := by
  intro code pointer blocks shape hcode next
  have hplaced := hcode
  simp only [ofExpression, List.length_append, List.length_cons] at next
  have hcall : Placed code (pointer + (ofExpression bound callee).length)
      (.mk .call (some (.call (ofExpressions bound arguments).length (bound.parameters node)))
        node.span :: ofExpressions bound arguments) →
      Sound d code (pointer + (ofExpression bound callee).length) blocks
        (callee.entry :: shape) := by
    intro hcode
    have hregion := hcode.tail.take_drop
    refine .call hcode.getElem? hcode.bound (hcalls hplaced) ?_ (next.moved (by omega))
    rw [hregion]
    exact harguments (Code.placed_self _) (fun shape => .done (by simp)) []
  -- a name right before the call is still known there, of other values nothing is
  cases callee with
  | name _ x => exact sound_loadName hcode.left (.inr rfl) (hcall hcode.right)
  | _ => exact hcallee.andThen hcode hcall

theorem soundExpression_member {object : Expression} (node : Node) (name : Name)
    (h : SoundExpression d bound object) : SoundExpression d bound (.member node object name) := by
  intro code pointer blocks shape hcode next
  simp only [ofExpression, List.length_append, List.length_cons, List.length_nil] at next
  refine h.andThen hcode fun hcode => sound_pushName hcode ?_
  exact .index hcode.tail.getElem? (next.moved (by omega))

theorem soundExpression_element {object key : Expression} (node : Node)
    (hobject : SoundExpression d bound object) (hkey : SoundExpression d bound key) :
    SoundExpression d bound (.element node object key) := by
  intro code pointer blocks shape hcode next
  rw [ofExpression, List.append_assoc] at hcode
  simp only [ofExpression, List.length_append, List.length_cons, List.length_nil] at next
  refine hobject.andThen hcode fun hcode => hkey.andThen hcode fun hcode => ?_
  exact .index hcode.getElem? (next.moved (by omega))

theorem soundExpressions_cons {e : Expression} {es : List Expression}
    (he : SoundExpression d bound e) (hes : SoundExpressions d bound es) :
    SoundExpressions d bound (e :: es) := by
  intro code pointer blocks hcode next shape
  refine he.andThen hcode fun hcode => hes hcode (fun shape => ?_) _
  refine (next shape).moved ?_
  rw [ofExpressions, List.length_append, Nat.add_assoc]

theorem soundEntries_cons {key value : Expression} {entries : List (Expression × Expression)}
    (hkey : SoundExpression d bound key) (hvalue : SoundExpression d bound value)
    (hentries : SoundEntries d (ofProperties bound entries)) :
    SoundEntries d (ofProperties bound ((key, value) :: entries)) := by
  intro entry he
  have halone := hkey.alone
  cases key
  case name node name =>
    obtain rfl | hrest := List.mem_cons.mp he
    · exact ⟨sound_pushName (Code.placed_self _) (.done (Nat.le_refl 1)), hvalue.alone⟩
    · exact hentries entry hrest
  all_goals
    obtain rfl | hrest := List.mem_cons.mp he
    · exact ⟨halone, hvalue.alone⟩
    · exact hentries entry hrest

mutual

theorem soundExpression (e : Expression) (h : Meets d bound e) : SoundExpression d bound e :=
  match e with
  | .literal node value => soundExpression_literal node value
  | .name _ _ => fun _ _ _ _ hcode next => sound_loadName hcode (.inl rfl) next
  | .paren _ inner =>
    soundExpression inner
      ⟨h.stores, fun p hp => h.calls p (List.mem_cons_of_mem _ hp), h.gaps, h.whole⟩
  | .unary node operator operand =>
    soundExpression_unary node operator h (soundExpression operand)
  | .binary node operator left right =>
    soundExpression_binary node operator h (soundExpression left) (soundExpression right)
  | .assign node operator target value =>
    soundExpression_assign node operator target h (soundExpression value)
  | .object node entries =>
    soundExpression_object node (soundEntries entries h.stores
      (fun p hp => h.calls p (List.mem_cons_of_mem _ hp)) h.gaps h.whole)
  | .call node callee arguments => by
    obtain ⟨hstores, hcalls, hgaps, hwhole⟩ := h
    have hown := hcalls (.call node callee arguments) List.mem_cons_self
    simp only [Expression.targets, List.mem_append] at hstores
    simp only [Expression.parts, List.mem_cons, List.mem_append] at hcalls
    simp only [gaps, List.append_eq_nil_iff] at hgaps
    simp only [Expression.isWhole, Bool.and_eq_true] at hwhole
    exact soundExpression_call node hown
      (soundExpression callee ⟨fun x hx => hstores x (.inl hx),
        fun p hp => hcalls p (.inr (.inl hp)), fun h => (hgaps h).1, fun h => (hwhole h).1⟩)
      (soundExpressions arguments (fun x hx => hstores x (.inr hx))
        (fun p hp => hcalls p (.inr (.inr hp))) (fun h => (hgaps h).2) fun h => (hwhole h).2)
  | .member node object name =>
    soundExpression_member node name (soundExpression object
      ⟨h.stores, fun p hp => h.calls p (List.mem_cons_of_mem _ hp), h.gaps, h.whole⟩)
  | .element node object key => by
    obtain ⟨hstores, hcalls, hgaps, hwhole⟩ := h
    simp only [Expression.targets, List.mem_append] at hstores
    simp only [Expression.parts, List.mem_cons, List.mem_append] at hcalls
    simp only [gaps, List.append_eq_nil_iff] at hgaps
    simp only [Expression.isWhole, Bool.and_eq_true] at hwhole
    exact soundExpression_element node
      (soundExpression object ⟨fun x hx => hstores x (.inl hx),
        fun p hp => hcalls p (.inr (.inl hp)), fun h => (hgaps h).1, fun h => (hwhole h).1⟩)
      (soundExpression key ⟨fun x hx => hstores x (.inr hx),
        fun p hp => hcalls p (.inr (.inr hp)), fun h => (hgaps h).2, fun h => (hwhole h).2⟩)
  | .hole _ => fun _ _ _ _ hcode next =>
    sound_gap hcode (fun hexact => absurd (h.whole hexact) (by simp [Expression.isWhole])) next
termination_by structural e

theorem soundExpressions (es : List Expression)
    (hstores : ∀ x ∈ Expression.listTargets es, d.stores x .any)
    (hcalls : ∀ part ∈ Expression.listParts es, d.Admits bound part)
    (hgaps : d.exact → listGaps bound es = []) (hwhole : d.exact → Expression.listWhole es = true) :
    SoundExpressions d bound es :=
  match es with
  | [] => fun _ _ _ _ next shape => next shape
  | e :: es => by
    simp only [Expression.listTargets, List.mem_append] at hstores
    simp only [Expression.listParts, List.mem_append] at hcalls
    simp only [listGaps, List.append_eq_nil_iff] at hgaps
    simp only [Expression.listWhole, Bool.and_eq_true] at hwhole
    exact soundExpressions_cons
      (soundExpression e ⟨fun x hx => hstores x (.inl hx), fun p hp => hcalls p (.inl hp),
        fun h => (hgaps h).1, fun h => (hwhole h).1⟩)
      (soundExpressions es (fun x hx => hstores x (.inr hx)) (fun p hp => hcalls p (.inr hp))
        (fun h => (hgaps h).2) fun h => (hwhole h).2)
termination_by structural es

theorem soundEntries (entries : List (Expression × Expression))
    (hstores : ∀ x ∈ Expression.entryTargets entries, d.stores x .any)
    (hcalls : ∀ part ∈ Expression.entriesParts entries, d.Admits bound part)
    (hgaps : d.exact → propertyGaps bound entries = [])
    (hwhole : d.exact → Expression.entriesWhole entries = true) :
    SoundEntries d (ofProperties bound entries) :=
  match entries with
  | [] => fun _ h => absurd h List.not_mem_nil
  | (key, value) :: entries => by
    simp only [Expression.entryTargets, List.mem_append] at hstores
    simp only [Expression.entriesParts, List.mem_append] at hcalls
    simp only [propertyGaps, List.append_eq_nil_iff] at hgaps
    simp only [Expression.entriesWhole, Bool.and_eq_true] at hwhole
    exact soundEntries_cons
      (soundExpression key ⟨fun x hx => hstores x (.inl (.inl hx)),
        fun p hp => hcalls p (.inl (.inl hp)), fun h => (hgaps h).1.1, fun h => (hwhole h).1.1⟩)
      (soundExpression value ⟨fun x hx => hstores x (.inl (.inr hx)),
        fun p hp => hcalls p (.inl (.inr hp)), fun h => (hgaps h).1.2, fun h => (hwhole h).1.2⟩)
      (soundEntries entries (fun x hx => hstores x (.inr hx)) (fun p hp => hcalls p (.inr hp))
        (fun h => (hgaps h).2) fun h => (hwhole h).2)
termination_by structural entries

end

/-- Statements begin and end with nothing promised about the stack. Other code follows them, to
which branches jump. -/
def SoundStatement (d : Discipline) (bound : BoundTree) (s : Statement) : Prop :=
  ∀ ⦃code : Code⦄ ⦃pointer blocks : Nat⦄, Placed code pointer (ofStatement bound pointer s) →
    pointer + (ofStatement bound pointer s).length < code.length →
    Sound d code (pointer + (ofStatement bound pointer s).length) blocks [] →
    Sound d code pointer blocks []

def SoundStatements (d : Discipline) (bound : BoundTree) (ss : List Statement) : Prop :=
  ∀ ⦃code : Code⦄ ⦃pointer blocks : Nat⦄, Placed code pointer (ofStatements bound pointer ss) →
    pointer + (ofStatements bound pointer ss).length < code.length →
    Sound d code (pointer + (ofStatements bound pointer ss).length) blocks [] →
    Sound d code pointer blocks []

theorem SoundStatements.closed {ss : List Statement} (h : SoundStatements d bound ss)
    (origin : Span) : Sound d (ofStatements bound 0 ss ++ [.plain .exit origin]) 0 0 [] := by
  have hcode := Code.placed_self (ofStatements bound 0 ss ++ [.plain .exit origin])
  exact h hcode.left (by simp) (.exit hcode.right.getElem?)

theorem sound_optional {value : Option Expression}
    (h : ∀ e, value = some e → SoundExpression d bound e)
    (hcode : Placed code pointer (ofOptional bound value origin ++ rest))
    (next : Placed code (pointer + (ofOptional bound value origin).length) rest →
      Sound d code (pointer + (ofOptional bound value origin).length) blocks (.any :: shape)) :
    Sound d code pointer blocks shape := by
  cases value with
  | none => exact .pushNone hcode.getElem? (next hcode.tail)
  | some e => exact (h e rfl).andThen hcode next

theorem soundStatement_expression {e : Expression} (node : Node) (h : SoundExpression d bound e) :
    SoundStatement d bound (.expression node e) :=
  fun _ _ _ hcode _ next => h hcode (next.extend [.any])

theorem soundStatement_letDecl {name : Name} {initial : Option Expression} (node : Node)
    (isMutable : Bool) (type : Option TypeRef) (hname : d.stores name.text .any)
    (h : ∀ e, initial = some e → SoundExpression d bound e) :
    SoundStatement d bound (.letDecl node isMutable name type initial) := by
  intro code pointer blocks hcode _ next
  simp only [ofStatement, List.length_append, List.length_cons, List.length_nil] at next
  refine sound_pushName hcode (sound_optional h hcode.tail fun hcode => ?_)
  exact .store hcode.getElem? hname (next.moved (by omega))

theorem soundStatement_fnDecl {name : Name} {parameters : List Parameter} {body : List Statement}
    (node : Node) (result : Option TypeRef)
    (hname : d.stores name.text (.made (parameters.map (·.name.text))))
    (hprocs : d.procs (parameters.map (·.name.text))) (hbody : SoundStatements d bound body) :
    SoundStatement d bound (.fnDecl node name parameters result body) := by
  intro code pointer blocks hcode _ next
  refine sound_pushName hcode ?_
  refine .proc hcode.tail.getElem? hprocs (hbody.closed node.span) ?_
  exact .store hcode.tail.tail.getElem? hname next

theorem soundStatement_block {body : List Statement} (node : Node)
    (hbody : SoundStatements d bound body) : SoundStatement d bound (.block node body) := by
  intro code pointer blocks hcode hroom next
  simp only [ofStatement, List.length_append, List.length_cons, List.length_nil] at hroom next
  refine .beginScope hcode.getElem? (hbody hcode.tail.left (by omega) ?_)
  exact .endScope hcode.tail.right.getElem? (next.moved (by omega))

theorem sound_branch {condition : Expression} {body : Statement} {other : Code} {start stop : Nat}
    (hcondition : SoundExpression d bound condition) (hbody : SoundStatement d bound body)
    (hcode : Placed code pointer (ofExpression bound condition ++
      .jump .jnz start origin :: other ++
        .jump .jmp stop origin :: ofStatement bound start body))
    (hstart : start = pointer + (ofExpression bound condition).length + 1 + other.length + 1)
    (hstop : stop = start + (ofStatement bound start body).length) (hroom : stop < code.length)
    (hother : Placed code (pointer + (ofExpression bound condition).length + 1) other →
      Sound d code (pointer + (ofExpression bound condition).length + 1 + other.length) blocks [] →
      Sound d code (pointer + (ofExpression bound condition).length + 1) blocks [])
    (next : Sound d code stop blocks []) : Sound d code pointer blocks [] := by
  -- The code of the other branch, if there is any, stands between the two jumps.
  rw [List.append_assoc] at hcode
  refine hcondition.andThen hcode fun hcode => ?_
  have hjump := hcode.tail.right
  have htaken := hjump.tail
  rw [← hstart] at htaken
  refine .branch hcode.getElem? (by omega) ?_ ?_
  · exact hbody htaken (by omega) (next.moved hstop)
  · exact hother hcode.tail.left (.jump hjump.getElem? hroom next)

theorem soundStatement_branch_none {condition : Expression} {body : Statement} (node : Node)
    (hcondition : SoundExpression d bound condition) (hbody : SoundStatement d bound body) :
    SoundStatement d bound (.branch node condition body none) := by
  intro code pointer blocks hcode hroom next
  simp only [ofStatement, List.length_append, List.length_cons, List.length_nil,
    Nat.add_zero] at hcode hroom next
  exact sound_branch hcondition hbody hcode rfl rfl (by omega) (fun _ h => h)
    (next.moved (by omega))

theorem soundStatement_branch_some {condition : Expression} {body other : Statement} (node : Node)
    (hcondition : SoundExpression d bound condition) (hbody : SoundStatement d bound body)
    (hother : SoundStatement d bound other) :
    SoundStatement d bound (.branch node condition body (some other)) := by
  intro code pointer blocks hcode hroom next
  simp only [ofStatement, List.length_append, List.length_cons] at hcode hroom next
  exact sound_branch hcondition hbody hcode rfl rfl (by omega)
    (fun hother' hnext => hother hother' (by omega) hnext) (next.moved (by omega))

theorem soundStatement_giveBack {value : Option Expression} (node : Node)
    (h : ∀ e, value = some e → SoundExpression d bound e) :
    SoundStatement d bound (.giveBack node value) :=
  fun _ _ _ hcode _ _ => sound_optional h hcode fun hcode => .giveBack hcode.getElem?

theorem soundStatements_cons {s : Statement} {ss : List Statement} (hs : SoundStatement d bound s)
    (hss : SoundStatements d bound ss) : SoundStatements d bound (s :: ss) := by
  intro code pointer blocks hcode hroom next
  simp only [ofStatements, List.length_append] at hcode hroom next
  refine hs hcode.left (by omega) (hss hcode.right (by omega) (next.moved (by omega)))

structure MeetsStatement (d : Discipline) (bound : BoundTree) (s : Statement) : Prop where
  stores : ∀ x ∈ s.assigned, d.stores x .any
  functions : ∀ f ∈ s.functions, d.stores f.1 (.made f.2) ∧ d.procs f.2
  calls : ∀ part ∈ s.parts, d.Admits bound part
  gaps : d.exact → statementGaps bound s = []
  whole : d.exact → s.isWhole = true

structure MeetsStatements (d : Discipline) (bound : BoundTree) (ss : List Statement) : Prop where
  stores : ∀ x ∈ Statement.listAssigned ss, d.stores x .any
  functions : ∀ f ∈ Statement.listFunctions ss, d.stores f.1 (.made f.2) ∧ d.procs f.2
  calls : ∀ part ∈ Statement.listParts ss, d.Admits bound part
  gaps : d.exact → statementsGaps bound ss = []
  whole : d.exact → Statement.listWhole ss = true

theorem meets_optional {value : Option Expression} {e : Expression} (he : value = some e)
    (hstores : ∀ x ∈ Statement.optionalTargets value, d.stores x .any)
    (hcalls : ∀ part ∈ Statement.optionalParts value, d.Admits bound part)
    (hgaps : d.exact → optionalGaps bound value = [])
    (hwhole : d.exact → Statement.optionalWhole value = true) : Meets d bound e := by
  subst he
  exact ⟨hstores, hcalls, hgaps, hwhole⟩

mutual

theorem soundStatement (s : Statement) (h : MeetsStatement d bound s) : SoundStatement d bound s :=
  match s with
  | .expression node e =>
    soundStatement_expression node (soundExpression e ⟨h.stores, h.calls, h.gaps, h.whole⟩)
  | .letDecl node isMutable name type initial =>
    soundStatement_letDecl node isMutable type (h.stores _ List.mem_cons_self) fun e he =>
      soundExpression e (meets_optional he (fun x hx => h.stores x (List.mem_cons_of_mem _ hx))
        h.calls h.gaps h.whole)
  | .fnDecl node name parameters result body => by
    obtain ⟨hstores, hfunctions, hcalls, hgaps, hwhole⟩ := h
    obtain ⟨hname, hprocs⟩ := hfunctions _ List.mem_cons_self
    exact soundStatement_fnDecl node result hname hprocs
      (soundStatements body ⟨hstores, fun f hf => hfunctions f (List.mem_cons_of_mem _ hf), hcalls,
        hgaps, hwhole⟩)
  | .block node body =>
    soundStatement_block node
      (soundStatements body ⟨h.stores, h.functions, h.calls, h.gaps, h.whole⟩)
  | .branch node condition body none => by
    obtain ⟨hstores, hfunctions, hcalls, hgaps, hwhole⟩ := h
    simp only [Statement.assigned, List.append_nil, List.mem_append] at hstores
    simp only [Statement.functions, List.append_nil] at hfunctions
    simp only [Statement.parts, List.append_nil, List.mem_append] at hcalls
    simp only [statementGaps, List.append_nil, List.append_eq_nil_iff] at hgaps
    simp only [Statement.isWhole, Bool.and_eq_true, Bool.and_true] at hwhole
    exact soundStatement_branch_none node
      (soundExpression condition ⟨fun x hx => hstores x (.inl hx), fun p hp => hcalls p (.inl hp),
        fun h => (hgaps h).1, fun h => (hwhole h).1⟩)
      (soundStatement body ⟨fun x hx => hstores x (.inr hx), hfunctions,
        fun p hp => hcalls p (.inr hp), fun h => (hgaps h).2, fun h => (hwhole h).2⟩)
  | .branch node condition body (some other) => by
    obtain ⟨hstores, hfunctions, hcalls, hgaps, hwhole⟩ := h
    simp only [Statement.assigned, List.mem_append] at hstores
    simp only [Statement.functions, List.mem_append] at hfunctions
    simp only [Statement.parts, List.mem_append] at hcalls
    simp only [statementGaps, List.append_eq_nil_iff] at hgaps
    simp only [Statement.isWhole, Bool.and_eq_true] at hwhole
    exact soundStatement_branch_some node
      (soundExpression condition ⟨fun x hx => hstores x (.inl (.inl hx)),
        fun p hp => hcalls p (.inl (.inl hp)), fun h => (hgaps h).1.1, fun h => (hwhole h).1.1⟩)
      (soundStatement body ⟨fun x hx => hstores x (.inl (.inr hx)),
        fun f hf => hfunctions f (.inl hf), fun p hp => hcalls p (.inl (.inr hp)),
        fun h => (hgaps h).2, fun h => (hwhole h).1.2⟩)
      (soundStatement other ⟨fun x hx => hstores x (.inr hx), fun f hf => hfunctions f (.inr hf),
        fun p hp => hcalls p (.inr hp), fun h => (hgaps h).1.2, fun h => (hwhole h).2⟩)
  | .giveBack node value =>
    soundStatement_giveBack node fun e he =>
      soundExpression e (meets_optional he h.stores h.calls h.gaps h.whole)
  | .hole _ => fun _ _ _ hcode _ next => .noop hcode.getElem? (fun _ => rfl) next
termination_by structural s

theorem soundStatements (ss : List Statement) (h : MeetsStatements d bound ss) :
    SoundStatements d bound ss :=
  match ss with
  | [] => fun _ _ _ _ _ next => next
  | s :: ss => by
    obtain ⟨hstores, hfunctions, hcalls, hgaps, hwhole⟩ := h
    simp only [Statement.listAssigned, List.mem_append] at hstores
    simp only [Statement.listFunctions, List.mem_append] at hfunctions
    simp only [Statement.listParts, List.mem_append] at hcalls
    simp only [statementsGaps, List.append_eq_nil_iff] at hgaps
    simp only [Statement.listWhole, Bool.and_eq_true] at hwhole
    exact soundStatements_cons
      (soundStatement s ⟨fun x hx => hstores x (.inl hx), fun f hf => hfunctions f (.inl hf),
        fun p hp => hcalls p (.inl hp), fun h => (hgaps h).1, fun h => (hwhole h).1⟩)
      (soundStatements ss ⟨fun x hx => hstores x (.inr hx), fun f hf => hfunctions f (.inr hf),
        fun p hp => hcalls p (.inr hp), fun h => (hgaps h).2, fun h => (hwhole h).2⟩)
termination_by structural ss

end

theorem SyntaxTree.sound_code (tree : SyntaxTree)
    (hstores : ∀ x ∈ tree.assigned, d.stores x .any)
    (hfunctions : ∀ f ∈ tree.functions, d.stores f.1 (.made f.2) ∧ d.procs f.2)
    (hcalls : ∀ e ∈ tree.expressions, d.Admits bound e)
    (hgaps : d.exact → tree.gaps bound = []) (hwhole : d.exact → tree.isWhole = true) :
    Sound d (tree.code bound) 0 0 [] :=
  (soundStatements tree.statements ⟨hstores, hfunctions, hcalls, hgaps, hwhole⟩).closed tree.span

end StackScript
