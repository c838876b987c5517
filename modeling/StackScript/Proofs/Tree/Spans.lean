import StackScript.Proofs.Source.Places
import StackScript.Proofs.Tree.Building

set_option autoImplicit false

/-!
# Where the parts of a tree stand

Main statements: `SyntaxTree.within_ofTokens` and `SyntaxTree.within_pieces`. The reader takes the
spans of nodes from tokens and merges them, and it reports at tokens. So every span of a tree, and of
what is reported about it, is in each family of spans that has those of the tokens and is closed
under merging.
-/
namespace StackScript

/-- A family of spans that has the place where no token is and is closed under merging. -/
structure Span.Mergeable (P : Span → Prop) : Prop where
  zero : P ⟨0, 0⟩
  merge {a b : Span} : P a → P b → P (a.merge b)

theorem Span.mergeable_liesIn (source : String) : Span.Mergeable (·.LiesIn source) :=
  ⟨Span.liesIn_zero source, Span.LiesIn.merge⟩

def Parameter.Within (P : Span → Prop) (parameter : Parameter) : Prop :=
  P parameter.name.span ∧ ∀ ref ∈ parameter.type, P ref.span

namespace Expression

mutual

/-- All spans in the expression are in `P`. -/
def Within (P : Span → Prop) : Expression → Prop
  | .literal node _ | .name node _ | .hole node => P node.span
  | .paren node inner => P node.span ∧ Within P inner
  | .unary node _ operand => P node.span ∧ Within P operand
  | .binary node _ left right => P node.span ∧ Within P left ∧ Within P right
  | .assign node _ target value => P node.span ∧ Within P target ∧ Within P value
  | .object node properties => P node.span ∧ EntriesWithin P properties
  | .call node callee arguments => P node.span ∧ Within P callee ∧ ListWithin P arguments
  | .member node inner label => P node.span ∧ Within P inner ∧ P label.span
  | .element node inner index => P node.span ∧ Within P inner ∧ Within P index
termination_by structural e => e

def ListWithin (P : Span → Prop) : List Expression → Prop
  | [] => True
  | e :: rest => Within P e ∧ ListWithin P rest
termination_by structural es => es

def EntriesWithin (P : Span → Prop) : List (Expression × Expression) → Prop
  | [] => True
  | (key, value) :: rest => Within P key ∧ Within P value ∧ EntriesWithin P rest
termination_by structural entries => entries

end

theorem Within.span {P : Span → Prop} {e : Expression} (h : e.Within P) : P e.span := by
  cases e with
  | literal | name | hole => exact h
  | _ => exact h.1

end Expression

namespace Statement

mutual

def Within (P : Span → Prop) : Statement → Prop
  | .expression node value => P node.span ∧ value.Within P
  | .letDecl node _ name type initial =>
    P node.span ∧ P name.span ∧ (∀ ref ∈ type, P ref.span) ∧ ∀ e ∈ initial, e.Within P
  | .fnDecl node name parameters result body =>
    P node.span ∧ P name.span ∧ (∀ parameter ∈ parameters, parameter.Within P) ∧
      (∀ ref ∈ result, P ref.span) ∧ ListWithin P body
  | .block node body => P node.span ∧ ListWithin P body
  | .branch node condition body otherwise =>
    P node.span ∧ condition.Within P ∧ Within P body ∧
      match otherwise with
      | some other => Within P other
      | none => True
  | .giveBack node value => P node.span ∧ ∀ e ∈ value, e.Within P
  | .hole node => P node.span
termination_by structural s => s

def ListWithin (P : Span → Prop) : List Statement → Prop
  | [] => True
  | s :: rest => Within P s ∧ ListWithin P rest
termination_by structural ss => ss

end

end Statement

namespace Piece

variable {P : Span → Prop}

abbrev Within (P : Span → Prop) (p : Piece) : Prop := p.All fun q => P q.span

/-- As `Within` says it of each kind of piece. -/
def Lies (P : Span → Prop) : Piece → Prop
  | .program tree => Statement.ListWithin P tree.statements
  | .statement s => s.Within P
  | .expression e => e.Within P
  | .name label => P label.span
  | .type ref => P ref.span

theorem lies_ofType {type : Option TypeRef} :
    (∀ p ∈ ofType type, p.Lies P) ↔ ∀ ref ∈ type, P ref.span := by
  cases type <;> simp [ofType, Lies]

theorem lies_ofValue {value : Option Expression} :
    (∀ p ∈ ofValue value, p.Lies P) ↔ ∀ e ∈ value, e.Within P := by
  cases value <;> simp [ofValue, Lies]

theorem lies_ofParameters {parameters : List Parameter} :
    (∀ p ∈ ofParameters parameters, p.Lies P) ↔
      ∀ parameter ∈ parameters, parameter.Within P := by
  induction parameters with
  | nil => simp [ofParameters]
  | cons parameter rest ih =>
    rw [ofParameters, List.flatMap_cons, List.forall_mem_append, ← ofParameters, ih,
      List.forall_mem_cons, List.forall_mem_cons, lies_ofType]
    rfl

theorem lies_expressions {es : List Expression} :
    (∀ p ∈ es.map expression, p.Lies P) ↔ Expression.ListWithin P es := by
  induction es with
  | nil => simp [Expression.ListWithin]
  | cons e rest ih =>
    rw [List.map_cons, List.forall_mem_cons, ih]
    rfl

theorem lies_ofEntries {entries : List (Expression × Expression)} :
    (∀ p ∈ ofEntries entries, p.Lies P) ↔ Expression.EntriesWithin P entries := by
  induction entries with
  | nil => simp [ofEntries, Expression.EntriesWithin]
  | cons entry rest ih =>
    rw [ofEntries, List.flatMap_cons, List.forall_mem_append, ← ofEntries, ih]
    simp [Expression.EntriesWithin, Lies, and_assoc]

theorem lies_statements {body : List Statement} :
    (∀ p ∈ body.map statement, p.Lies P) ↔ Statement.ListWithin P body := by
  induction body with
  | nil => simp [Statement.ListWithin]
  | cons s rest ih =>
    rw [List.map_cons, List.forall_mem_cons, ih]
    rfl

theorem lies_of_inner {p : Piece} (own : P p.span) (h : ∀ q ∈ p.inner, q.Lies P) : p.Lies P := by
  cases p with
  | name | type => exact own
  | program tree => exact lies_statements.mp h
  | expression e =>
    cases e with
    | literal | name | hole => exact own
    | paren | unary => exact ⟨own, h _ (.head _)⟩
    | binary | assign | element | member => exact ⟨own, h _ (.head _), h _ (.tail _ (.head _))⟩
    | object => exact ⟨own, lies_ofEntries.mp h⟩
    | call =>
      obtain ⟨hcallee, harguments⟩ := List.forall_mem_cons.mp h
      exact ⟨own, hcallee, lies_expressions.mp harguments⟩
  | statement s =>
    cases s with
    | hole => exact own
    | expression => exact ⟨own, h _ (.head _)⟩
    | block => exact ⟨own, lies_statements.mp h⟩
    | giveBack => exact ⟨own, lies_ofValue.mp h⟩
    | letDecl =>
      obtain ⟨hname, hrest⟩ := List.forall_mem_cons.mp h
      obtain ⟨htype, hinitial⟩ := List.forall_mem_append.mp hrest
      exact ⟨own, hname, lies_ofType.mp htype, lies_ofValue.mp hinitial⟩
    | fnDecl =>
      obtain ⟨hname, hrest⟩ := List.forall_mem_cons.mp h
      obtain ⟨hparameters, hrest⟩ := List.forall_mem_append.mp hrest
      obtain ⟨hresult, hbody⟩ := List.forall_mem_append.mp hrest
      exact ⟨own, hname, lies_ofParameters.mp hparameters, lies_ofType.mp hresult,
        lies_statements.mp hbody⟩
    | branch _ _ _ otherwise =>
      have hcondition := h _ (.head _)
      have hbody := h _ (.tail _ (.head _))
      cases otherwise with
      | none => exact ⟨own, hcondition, hbody, trivial⟩
      | some => exact ⟨own, hcondition, hbody, h _ (.tail _ (.tail _ (.head _)))⟩

theorem Within.lies {p : Piece} (h : p.Within P) : p.Lies P := by
  induction h with
  | mk own _ ih => exact lies_of_inner own ih

end Piece

section

variable {r r' : Reader} {P : Span → Prop}

theorem Reader.Spans.of_mergeable (hP : Span.Mergeable P) {span : Span} (h : r.Spans span)
    (hahead : ∀ token ∈ r.ahead, P token.span) (hprevious : ∀ span ∈ r.previous, P span) :
    P span := by
  induction h with
  | zero => exact hP.zero
  | ahead hmem => exact hahead _ hmem
  | previous hmem => exact hprevious _ hmem
  | merge _ _ ihfirst ihsecond => exact hP.merge ihfirst ihsecond

theorem Reader.Evolves.spans_of_reported (h : r.Evolves r') (hr : r.diagnostics = #[])
    {d : Diagnostic} (hd : d ∈ r'.diagnostics.toList) : r.Spans d.span := by
  induction h with
  | refl => simp [hr] at hd
  | skip _ ih => exact ih (ReadM.diagnostics_skip _ ▸ hd)
  | reported hevolves fault ih =>
    rw [Reader.reported, Array.toList_push, List.mem_append, List.mem_singleton] at hd
    obtain hold | rfl := hd
    · exact ih hold
    · exact hevolves.spans (Reader.spans_tokenAhead _)
  | numbered _ ih => exact ih hd

theorem Builds.within {row : List Piece} (h : Builds r row r')
    (hr : ∀ span, r.Spans span → P span) : ∀ p ∈ row, p.Within P := by
  induction h with
  | nil r => exact nofun
  | pass passes _ ih => exact ih fun span hspan => hr span (passes.evolves.spans hspan)
  | name span _ ih => exact List.forall_mem_cons.mpr ⟨⟨hr _ span, nofun⟩, ih hr⟩
  | type readBy _ ih =>
    refine List.forall_mem_cons.mpr ⟨⟨hr _ readBy.span, ?_⟩, ih hr⟩
    exact List.forall_mem_map.mpr fun name hname => ⟨hr _ (readBy.names name hname), nofun⟩
  | hole _ spans passes _ ih =>
    refine List.forall_mem_cons.mpr ⟨⟨hr _ spans, nofun⟩, ih fun span hspan => hr span ?_⟩
    exact ((Reader.Evolves.refl.reported _).trans passes.evolves).numbered.spans hspan
  | expression _ parts _ spans _ ihparts ih | statement parts _ spans _ ihparts ih =>
    exact List.forall_mem_cons.mpr ⟨⟨hr _ spans, ihparts hr⟩,
      ih fun span hspan => hr span (parts.evolves.numbered.spans hspan)⟩

end

namespace SyntaxTree

variable {P : Span → Prop} (hP : Span.Mergeable P) {tokens : List Token}
  (h : ∀ token ∈ tokens, P token.span)

include hP h

theorem mem_of_spans {span : Span}
    (hspan : Reader.Spans { ahead := tokens.filter fun t => !t.kind.isInvalid } span) : P span :=
  hspan.of_mergeable hP (fun token htoken => h token (List.mem_filter.mp htoken).1) nofun

theorem within_ofTokens (span : Span) :
    Statement.ListWithin P (ofTokens tokens span).tree.statements ∧
      ∀ d ∈ (ofTokens tokens span).diagnostics, P d.span := by
  obtain ⟨last, hlast, hbuilds⟩ := builds_ofTokens tokens span
  refine ⟨Piece.lies_statements.mp fun p hp => ?_, fun d hd => ?_⟩
  · exact (hbuilds.within (fun _ => mem_of_spans hP h) p hp).lies
  · exact mem_of_spans hP h (hbuilds.evolves.spans_of_reported rfl (hlast ▸ hd))

theorem within_pieces {span : Span} (hspan : P span) {p : Piece}
    (hp : (ofTokens tokens span).tree.HasPiece p) : P p.span := by
  obtain ⟨last, -, hbuilds⟩ := builds_ofTokens tokens span
  exact hp.of_all (Q := fun q => P q.span)
    ⟨hspan, hbuilds.within fun _ => mem_of_spans hP h⟩

end SyntaxTree

end StackScript
