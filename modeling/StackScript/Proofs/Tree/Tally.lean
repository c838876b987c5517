import StackScript.Proofs.Tree.Building
import StackScript.Proofs.Tree.Names

set_option autoImplicit false

/-!
# One report for each hole

Main statement: `Builds.unexpected`. Where no expression begins the reader reports an unexpected
token and puts a hole in its place, and it does neither anywhere else. So along every call the holes
and these reports become more by the same number. The end of the text stays ahead all the while: the
reader looks at it but never takes it.
-/
namespace StackScript

/-- The list ends with the end of the text, which stands nowhere else in it. -/
inductive EndsOnce : List Token → Prop where
  | last (span : Span) : EndsOnce [⟨.endOfFile, span⟩]
  | cons {token : Token} {rest : List Token} (inside : token.kind.isEndOfFile = false)
      (tail : EndsOnce rest) : EndsOnce (token :: rest)

theorem EndsOnce.filter {tokens : List Token} (h : EndsOnce tokens) {keeps : Token → Bool}
    (hlast : ∀ span, keeps ⟨.endOfFile, span⟩ = true) : EndsOnce (tokens.filter keeps) := by
  induction h with
  | last span =>
    rw [List.filter_cons_of_pos (hlast span)]
    exact .last span
  | cons inside _ ih =>
    rw [List.filter_cons]
    split
    · exact .cons inside ih
    · exact ih

theorem EndsOnce.skip {r : Reader} (h : EndsOnce r.ahead) : EndsOnce (ReadM.skip r).ahead := by
  unfold ReadM.skip
  split
  · exact h
  · rename_i token rest hahead
    rw [hahead] at h
    cases h with
    | last span => exact hahead ▸ .last span
    | cons inside tail =>
      rw [inside, if_neg Bool.false_ne_true]
      exact tail

theorem Reader.Evolves.endsOnce {r r' : Reader} (h : r.Evolves r') (hends : EndsOnce r.ahead) :
    EndsOnce r'.ahead := by
  induction h with
  | refl => exact hends
  | skip _ ih => exact ih.skip
  | reported _ _ ih | numbered _ ih => exact ih

def Expression.holes (expressions : List Expression) : Nat := expressions.countP isHole

@[simp]
theorem Expression.holes_append (first second : List Expression) :
    Expression.holes (first ++ second) = Expression.holes first + Expression.holes second :=
  List.countP_append

@[simp]
theorem Expression.holes_cons (e : Expression) (rest : List Expression) :
    Expression.holes (e :: rest) = Expression.holes rest + if e.isHole then 1 else 0 :=
  List.countP_cons

def Piece.parts : Piece → List Expression
  | .program tree => tree.expressions
  | .statement s => s.parts
  | .expression e => e.parts
  | .name _ | .type _ => []

@[simp]
theorem Piece.parts_ofType (type : Option TypeRef) : (ofType type).flatMap parts = [] :=
  flatMap_ofType (fun _ => rfl) type

@[simp]
theorem Piece.parts_ofParameters (parameters : List Parameter) :
    (ofParameters parameters).flatMap parts = [] :=
  flatMap_ofParameters (fun _ => rfl) (fun _ => rfl) parameters

namespace Expression

theorem listParts_eq (es : List Expression) :
    listParts es = (es.map Piece.expression).flatMap Piece.parts := by
  induction es with
  | nil => rfl
  | cons e rest ih => rw [listParts, ih]; rfl

theorem entriesParts_eq (entries : List (Expression × Expression)) :
    entriesParts entries = (Piece.ofEntries entries).flatMap Piece.parts := by
  induction entries with
  | nil => rfl
  | cons entry rest ih => simp [entriesParts, ih, Piece.ofEntries, Piece.parts]

theorem parts_eq (e : Expression) :
    e.parts = e :: (Piece.ofExpression e).flatMap Piece.parts := by
  cases e <;> simp [parts, Piece.ofExpression, Piece.parts, listParts_eq, entriesParts_eq]

end Expression

namespace Statement

theorem listParts_eq (body : List Statement) :
    listParts body = (body.map Piece.statement).flatMap Piece.parts := by
  induction body with
  | nil => rfl
  | cons s rest ih => rw [listParts, ih]; rfl

theorem optionalParts_eq (value : Option Expression) :
    optionalParts value = (Piece.ofValue value).flatMap Piece.parts := by
  cases value <;> simp [optionalParts, Piece.ofValue, Piece.parts]

theorem parts_eq (s : Statement) : s.parts = (Piece.ofStatement s).flatMap Piece.parts := by
  cases s with
  | branch _ _ _ otherwise => cases otherwise <;> simp [parts, Piece.ofStatement, Piece.parts]
  | _ => simp [parts, Piece.ofStatement, Piece.parts, listParts_eq, optionalParts_eq]

end Statement

/-- The report is of a token that no expression begins with. -/
def Diagnostic.isUnexpected (d : Diagnostic) : Bool := d.code.text == "H005"

def Diagnostic.unexpected (diagnostics : List Diagnostic) : Nat :=
  diagnostics.countP isUnexpected

theorem Diagnostic.unexpected_append (first second : List Diagnostic) :
    Diagnostic.unexpected (first ++ second) =
      Diagnostic.unexpected first + Diagnostic.unexpected second :=
  List.countP_append

namespace Reader

def unexpected (r : Reader) : Nat := Diagnostic.unexpected r.diagnostics.toList

theorem unexpected_missing (r : Reader) (what : String) (found : TokenKind) :
    (r.reported (.expected what found)).unexpected = r.unexpected := by
  rw [unexpected, reported, Array.toList_push, Diagnostic.unexpected_append]
  rfl

theorem unexpected_unexpected (r : Reader) (found : TokenKind) :
    (r.reported (.unexpected found)).unexpected = r.unexpected + 1 := by
  rw [unexpected, reported, Array.toList_push, Diagnostic.unexpected_append]
  rfl

theorem Passes.unexpected {r r' : Reader} (h : r.Passes r') : r'.unexpected = r.unexpected := by
  induction h with
  | refl => rfl
  | skip _ ih => rw [← ih, Reader.unexpected, ReadM.diagnostics_skip]; rfl
  | missing _ what found ih => rw [unexpected_missing, ih]

end Reader

/-- A token is found unexpected for each hole that is built. -/
theorem Builds.unexpected {r r' : Reader} {row : List Piece} (h : Builds r row r') :
    r'.unexpected = r.unexpected + Expression.holes (row.flatMap Piece.parts) := by
  induction h with
  | nil r => rfl
  | pass passes _ ih => rw [ih, passes.unexpected]
  | name _ _ ih | type _ _ ih => exact ih
  | @hole r r' last _ _ found _ passes _ ih =>
    have hlast : last.unexpected = r'.unexpected + _ := ih
    rw [hlast, passes.unexpected, r.unexpected_unexpected, List.flatMap_cons,
      Expression.holes_append, ← Nat.add_assoc]
    rfl
  | @expression r r' last e _ whole _ _ _ _ ihparts ih =>
    have hlast : last.unexpected = r'.unexpected + _ := ih
    rw [hlast, ihparts]
    simp [Piece.parts, Expression.parts_eq e, whole, Nat.add_assoc]
  | @statement r r' last s _ _ _ _ _ ihparts ih =>
    have hlast : last.unexpected = r'.unexpected + _ := ih
    rw [hlast, ihparts]
    simp [Piece.parts, Statement.parts_eq s, Nat.add_assoc]

end StackScript
