import StackScript.Binding.Bind
import StackScript.Proofs.Heap.Scopes
import StackScript.Tree.Parse

set_option autoImplicit false

/-!
# The globals that a program declares

Main statement: `globals_change_by_declarations_of_top_level`. Expressions declare nothing. A
statement declares names in the innermost scope; what it declares in the scopes that it opens goes
with them. So the globals get the names that are declared outside of blocks and functions, and keep
all else.
-/
namespace StackScript

/-- The names declared by a statement and its branches, but not in blocks and functions. -/
def Statement.topNames : Statement → List String
  | .letDecl _ _ name _ _ | .fnDecl _ name _ _ _ => [name.text]
  | .branch _ _ body otherwise =>
    topNames body ++ match otherwise with
      | some other => topNames other
      | none => []
  | .expression _ _ | .block _ _ | .giveBack _ _ | .hole _ => []
termination_by structural s => s

def SyntaxTree.topNames (tree : SyntaxTree) : List String :=
  tree.statements.flatMap Statement.topNames

/-- The later table has entries for the given names besides those of the first, and differs from it
in no other. -/
structure NameTable.Gains {α : Type} (names : List String) (table later : NameTable α) : Prop where
  contains : ∀ name, later.contains name = true ↔ table.contains name = true ∨ name ∈ names
  get? : ∀ name, name ∉ names → later.get? name = table.get? name

namespace NameTable.Gains

variable {α : Type} {names more : List String} {table later last : NameTable α}

theorem refl (table : NameTable α) : Gains [] table table := ⟨by simp, fun _ _ => rfl⟩

theorem trans (h : Gains names table later) (h' : Gains more later last) :
    Gains (names ++ more) table last where
  contains name := by rw [h'.contains, h.contains, List.mem_append, or_assoc]
  get? name hname := by
    rw [List.mem_append, not_or] at hname
    rw [h'.get? name hname.2, h.get? name hname.1]

theorem insert (table : NameTable α) (name : String) (value : α) :
    Gains [name] table (table.insert name value) where
  contains other := by
    rw [NameTable.contains, NameTable.get?_insert, List.mem_singleton, NameTable.contains]
    split <;> simp [*]
  get? other hother := by
    rw [NameTable.get?_insert, if_neg (mt List.mem_singleton.mpr hother)]

end NameTable.Gains

namespace BindM

variable {α β : Type} {names more : List String}

def KeepsScopes (action : BindM α) : Prop := ∀ b : Binder, (action.run b).2.scopes = b.scopes

namespace KeepsScopes

theorem pure (x : α) : KeepsScopes (pure x) := fun _ => rfl

theorem bind {action : BindM α} {f : α → BindM β} (h : KeepsScopes action)
    (hf : ∀ x, KeepsScopes (f x)) : KeepsScopes (action >>= f) :=
  fun b => (hf _ _).trans (h b)

theorem map {action : BindM α} (h : KeepsScopes action) (f : α → β) :
    KeepsScopes (f <$> action) := h

theorem checked {c : Prop} [Decidable c] {check : BindM Unit} {rest : Unit → BindM β}
    (hcheck : KeepsScopes check) (hrest : ∀ x, KeepsScopes (rest x)) :
    KeepsScopes (if c then check >>= rest else rest ()) := by
  split
  · exact hcheck.bind hrest
  · exact hrest ()

end KeepsScopes

theorem keeps_report (fault : BindingFault) (span : Span) : KeepsScopes (report fault span) :=
  fun _ => rfl

theorem keeps_lookup (name : String) : KeepsScopes (lookup name) := fun _ => rfl

theorem keeps_record (id : Nat) (node : BoundNode) : KeepsScopes (record id node) := fun _ => rfl

theorem keeps_typed (node : Node) (type : StaticType) : KeepsScopes (typed node type) :=
  fun _ => rfl

theorem keeps_checkAssignable (actual expected : StaticType) (span : Span) :
    KeepsScopes (checkAssignable actual expected span) := by
  unfold checkAssignable
  split
  · exact keeps_report _ _
  · exact .pure ()

theorem keeps_checkIndexable (type : StaticType) (span : Span) :
    KeepsScopes (checkIndexable type span) := by
  unfold checkIndexable
  split
  · exact keeps_report _ _
  · exact .pure ()

theorem keeps_checkStepTarget (target : Expression) : KeepsScopes (checkStepTarget target) := by
  unfold checkStepTarget
  split
  · refine (keeps_lookup _).bind fun found => ?_
    split
    · split
      · exact keeps_report _ _
      · exact .pure ()
    · exact .pure ()
  · exact keeps_report _ _

theorem keeps_bindBinary (node : Node) (operator : BinaryOperator) (left right : StaticType) :
    KeepsScopes (bindBinary node operator left right) := by
  unfold bindBinary
  split
  · exact (keeps_record _ _).bind fun _ => .pure _
  · exact (keeps_report _ _).bind fun _ => .pure _

theorem keeps_checkArguments (parameters : List (String × StaticType))
    (arguments : List (StaticType × Span)) : KeepsScopes (checkArguments parameters arguments) := by
  induction parameters generalizing arguments with
  | nil => exact .pure ()
  | cons parameter parameters ih =>
    cases arguments with
    | nil => exact .pure ()
    | cons argument arguments => exact (keeps_checkAssignable _ _ _).bind fun _ => ih arguments

theorem keeps_signature? (callee : Expression) : KeepsScopes (signature? callee) := by
  unfold signature?
  split
  · exact (keeps_lookup _).bind fun _ => .pure _
  · exact .pure _

theorem keeps_bindCall (node : Node) (callee : Expression) (type : StaticType)
    (arguments : List (StaticType × Span)) :
    KeepsScopes (bindCall node callee type arguments) := by
  have hrecord : ∀ (names : List String) (result : StaticType),
      KeepsScopes (do record node.id (.call names); return result) :=
    fun names result => (keeps_record _ _).bind fun _ => .pure _
  refine (keeps_signature? callee).bind fun found => ?_
  cases found with
  | none =>
    dsimp only
    split
    · exact hrecord _ _
    · exact hrecord _ _
    · exact (keeps_report _ _).bind fun _ => hrecord _ _
  | some signature =>
    exact .checked (keeps_report _ _) fun _ => (keeps_checkArguments _ _).bind fun _ => hrecord _ _

theorem keeps_bindAssignment (node : Node) (operator : Option BinaryOperator) (target : Node)
    (name : String) (value : StaticType) (span : Span) :
    KeepsScopes (bindAssignment node operator target name value span) := by
  refine (keeps_lookup name).bind fun found => ?_
  cases found with
  | none => exact (keeps_report _ _).bind fun _ => .pure _
  | some declaration =>
    have hstored : ∀ result, KeepsScopes (do
        checkAssignable result declaration.type span
        return result) := fun _ => (keeps_checkAssignable _ _ _).bind fun _ => .pure _
    refine (keeps_typed _ _).bind fun _ => .checked (keeps_report _ _) fun _ => ?_
    cases operator with
    | none => exact hstored value
    | some operator =>
      refine (keeps_bindBinary _ operator _ _).bind fun result => ?_
      cases result with
      | none => exact .pure _
      | some result => exact hstored result

mutual

theorem keeps_expression : (e : Expression) → KeepsScopes (expression e)
  | .literal node value => keeps_typed node _
  | .name node name => by
    refine (keeps_lookup name).bind fun found => ?_
    cases found with
    | none => exact (keeps_report _ _).bind fun _ => keeps_typed node _
    | some declaration => exact keeps_typed node _
  | .paren node inner => (keeps_expression inner).bind fun _ => keeps_typed node _
  | .unary node operator operand => by
    have hrest : ∀ type, KeepsScopes (match BoundUnary.resolve? operator type with
        | some row => do
          record node.id (.unary row)
          typed node row.result
        | none => do
          report (.noUnaryOperator operator type) node.span
          typed node .any) := by
      intro type
      split
      · exact (keeps_record _ _).bind fun _ => keeps_typed node _
      · exact (keeps_report _ _).bind fun _ => keeps_typed node _
    exact (keeps_expression operand).bind fun type =>
      .checked (keeps_checkStepTarget operand) fun _ => hrest type
  | .binary node operator left right =>
    (keeps_expression left).bind fun _ => (keeps_expression right).bind fun _ =>
      (keeps_bindBinary node operator _ _).bind fun _ => keeps_typed node _
  | .assign node operator target value => by
    refine (keeps_expression value).bind fun type => ?_
    have htarget := keeps_expression target
    split
    · exact (keeps_bindAssignment _ _ _ _ _ _).bind fun _ => keeps_typed node _
    · exact (keeps_report _ _).bind fun _ => htarget.bind fun _ => keeps_typed node _
  | .object node entries => (keeps_properties entries).bind fun _ => keeps_typed node _
  | .call node callee arguments =>
    (keeps_expression callee).bind fun _ => (keeps_expressions arguments).bind fun _ =>
      (keeps_bindCall node callee _ _).bind fun _ => keeps_typed node _
  | .member node object _ =>
    (keeps_expression object).bind fun _ => (keeps_checkIndexable _ _).bind fun _ =>
      keeps_typed node _
  | .element node object index =>
    (keeps_expression object).bind fun _ => (keeps_expression index).bind fun _ =>
      (keeps_checkIndexable _ _).bind fun _ => keeps_typed node _
  | .hole node => keeps_typed node _

theorem keeps_expressions : (es : List Expression) → KeepsScopes (expressions es)
  | [] => .pure _
  | e :: rest =>
    (keeps_expression e).bind fun _ => (keeps_expressions rest).bind fun _ => .pure _

theorem keeps_properties : (entries : List (Expression × Expression)) →
    KeepsScopes (properties entries)
  | [] => .pure ()
  | (key, value) :: rest => by
    have hkey := keeps_expression key
    have hrest : KeepsScopes (do let _ ← expression value; properties rest) :=
      (keeps_expression value).bind fun _ => keeps_properties rest
    unfold properties
    split
    · exact hrest
    · exact hkey.bind fun _ => hrest

end

theorem keeps_resolveType (ref : TypeRef) : KeepsScopes (resolveType ref) := by
  have hreports : ∀ unknown : List String,
      KeepsScopes (unknown.forM fun name => report (.unknownType name) ref.span) := by
    intro unknown
    induction unknown with
    | nil => exact .pure ()
    | cons name unknown ih => exact (keeps_report _ _).bind fun _ => ih
  exact (hreports _).bind fun _ => .pure _

theorem keeps_resolveType? (ref : Option TypeRef) : KeepsScopes (resolveType? ref) := by
  cases ref with
  | none => exact .pure _
  | some ref => exact (keeps_resolveType ref).map _

theorem keeps_parameterTypes (parameters : List Parameter) :
    KeepsScopes (parameterTypes parameters) := by
  induction parameters with
  | nil => exact .pure _
  | cons parameter parameters ih =>
    exact (keeps_resolveType? _).bind fun _ => ih.bind fun _ => .pure _

theorem keeps_checkResult (type : StaticType) (span : Span) :
    KeepsScopes (checkResult type span) := by
  have hget : KeepsScopes (get : BindM Binder) := fun _ => rfl
  refine hget.bind fun b => ?_
  split
  · exact keeps_checkAssignable _ _ _
  · exact .pure _

/-- The action declares these names in the innermost scope, and leaves the scopes around it as they
are. -/
def Declares (names : List String) (action : BindM α) : Prop :=
  ∀ b scope outer, b.scopes = scope :: outer →
    ∃ later, (action.run b).2.scopes = later :: outer ∧ scope.Gains names later

theorem KeepsScopes.declares {action : BindM α} (h : KeepsScopes action) : Declares [] action :=
  fun b scope _ hscopes => ⟨scope, (h b).trans hscopes, .refl scope⟩

theorem Declares.bind {action : BindM α} {f : α → BindM β} (h : Declares names action)
    (hf : ∀ x, Declares more (f x)) : Declares (names ++ more) (action >>= f) := by
  intro b scope outer hscopes
  obtain ⟨later, hlater, hgains⟩ := h b scope outer hscopes
  obtain ⟨last, hlast, hmore⟩ := hf _ _ later outer hlater
  exact ⟨last, hlast, hgains.trans hmore⟩

theorem KeepsScopes.andThen {action : BindM α} {f : α → BindM β} (h : KeepsScopes action)
    (hf : ∀ x, Declares names (f x)) : Declares names (action >>= f) :=
  h.declares.bind hf

theorem declares_declare (name : String) (declaration : Declaration) :
    Declares [name] (declare name declaration) := by
  intro b scope outer hscopes
  obtain ⟨scopes, results, bound, diagnostics⟩ := b
  obtain rfl : scopes = scope :: outer := hscopes
  exact ⟨scope.insert name declaration, rfl, .insert scope name declaration⟩

theorem declares_letDeclaration (isMutable : Bool) (name : Name) (type : Option TypeRef)
    (initial : Option Expression) :
    Declares [name.text] (letDeclaration isMutable name type initial) := by
  have hdeclare : ∀ type, Declares [name.text] (declare name.text { type, isMutable }) :=
    fun _ => declares_declare _ _
  unfold letDeclaration
  cases initial with
  | none =>
    have hnone : KeepsScopes (pure none : BindM (Option StaticType)) := .pure none
    exact hnone.andThen fun _ => (keeps_resolveType? type).andThen fun _ => hdeclare _
  | some e =>
    refine ((keeps_expression e).map some).andThen fun value =>
      (keeps_resolveType? type).andThen fun annotated => ?_
    cases value with
    | none => exact hdeclare _
    | some actual =>
      cases annotated with
      | none => exact hdeclare _
      | some expected => exact (keeps_checkAssignable _ _ _).andThen fun _ => hdeclare _

theorem keeps_enclosed {body : BindM Unit} (scope : NameTable Declaration)
    (h : Declares names body) : KeepsScopes (do openScope scope; body; closeScope) := by
  intro b
  obtain ⟨later, hlater, -⟩ := h { b with scopes := scope :: b.scopes } scope b.scopes rfl
  exact congrArg List.tail hlater

theorem Declares.inFunction {body : BindM Unit} (result : Option StaticType)
    (h : Declares names body) : Declares names (do openFunction result; body; closeFunction) :=
  fun b => h { b with results := result :: b.results }

mutual

theorem declares_statement : (s : Statement) → Declares s.topNames (statement s)
  | .expression _ e => ((keeps_expression e).bind fun _ => .pure ()).declares
  | .letDecl _ isMutable name type initial => declares_letDeclaration isMutable name type initial
  | .fnDecl _ name parameters result body => by
    refine (keeps_parameterTypes parameters).andThen fun types =>
      (keeps_resolveType? result).andThen fun resultType =>
        (declares_declare name.text _).bind fun _ => ?_
    exact (keeps_enclosed _ ((declares_statements body).inFunction resultType)).declares
  | .block _ body => (keeps_enclosed _ (declares_statements body)).declares
  | .branch _ condition body (some other) =>
    (keeps_expression condition).andThen fun _ => (declares_statement body).bind fun _ =>
      declares_statement other
  | .branch _ condition body none =>
    (keeps_expression condition).andThen fun _ => (declares_statement body).bind fun _ =>
      (KeepsScopes.pure ()).declares
  | .giveBack node value => by
    cases value with
    | none => exact (keeps_checkResult _ _).declares
    | some e => exact ((keeps_expression e).bind fun _ => keeps_checkResult _ _).declares
  | .hole _ => (KeepsScopes.pure ()).declares

theorem declares_statements : (ss : List Statement) →
    Declares (ss.flatMap Statement.topNames) (statements ss)
  | [] => (KeepsScopes.pure ()).declares
  | s :: rest => (declares_statement s).bind fun _ => declares_statements rest

end

end BindM

/-- Whatever is reported, binding a program makes just those names global that the program declares
outside of blocks and functions, besides those that were global before. What is known of any other
name does not change. -/
theorem globals_change_by_declarations_of_top_level (globals : Globals) (tree : SyntaxTree)
    (name : String) :
    ((globals.bind tree).globals.contains name = true ↔
        globals.contains name = true ∨ name ∈ tree.topNames) ∧
      (name ∉ tree.topNames → (globals.bind tree).globals.get? name = globals.get? name) := by
  obtain ⟨later, hscopes, hgains⟩ :=
    BindM.declares_statements tree.statements { scopes := [globals] } globals [] rfl
  have hlater : (globals.bind tree).globals = later := by
    change (((BindM.statements tree.statements).run { scopes := [globals] }).2.scopes).getLastD
      .empty = later
    rw [hscopes]
    rfl
  rw [hlater]
  exact ⟨hgains.contains name, hgains.get? name⟩

/-- Where `f` is global, a text declares `x` in a branch and `g`, with a parameter `f` and a variable
`y` in its body, and is reported for a name that is not known: `x` becomes global, `y` does not, and
`f` is what it was. -/
theorem globals_change_by_declarations_of_top_level_of_faulty_text :
    let globals : Globals := NameTable.empty.insert "f" { type := .int, isMutable := false }
    let tree := (SyntaxTree.read "if z let x; fn g(f) { let y }").tree
    (globals.bind tree).diagnostics ≠ [] ∧ tree.topNames = ["x", "g"] ∧
      (globals.bind tree).globals.contains "x" = true ∧
      (globals.bind tree).globals.contains "y" = false ∧
      (globals.bind tree).globals.get? "f" = globals.get? "f" := by
  intro globals tree
  have hreported : (globals.bind tree).diagnostics ≠ [] := by decide +kernel
  have hnames : tree.topNames = ["x", "g"] := by decide +kernel
  have hx := (globals_change_by_declarations_of_top_level globals tree "x").1
  have hy := (globals_change_by_declarations_of_top_level globals tree "y").1
  have hf := (globals_change_by_declarations_of_top_level globals tree "f").2
  rw [hnames] at hx hy hf
  refine ⟨hreported, hnames, hx.mpr (.inr (by decide)), ?_, hf (by decide)⟩
  rw [← Bool.not_eq_true, hy]
  decide

end StackScript
