import StackScript.Proofs.Tree.Bare
import StackScript.Proofs.Tree.Building

set_option autoImplicit false

/-!
# The numbers of nodes

Main statement: `SyntaxTree.ids_ofTokens`. The reader numbers the nodes one after another, a node
after all its parts, whether or not the tokens are in order. So the numbers of a tree, each node's
after those of its parts, are just the numbers from zero on.
-/
namespace StackScript

def Piece.ids : Piece → List Nat
  | .program tree => Statement.listIds tree.statements
  | .statement s => s.ids
  | .expression e => e.ids
  | .name _ | .type _ => []

@[simp]
theorem Piece.ids_ofType (type : Option TypeRef) : (ofType type).flatMap ids = [] :=
  flatMap_ofType (fun _ => rfl) type

@[simp]
theorem Piece.ids_ofParameters (parameters : List Parameter) :
    (ofParameters parameters).flatMap ids = [] :=
  flatMap_ofParameters (fun _ => rfl) (fun _ => rfl) parameters

namespace Expression

theorem listIds_eq (es : List Expression) :
    listIds es = (es.map Piece.expression).flatMap Piece.ids := by
  induction es with
  | nil => rfl
  | cons e rest ih => rw [listIds, ih]; rfl

theorem entriesIds_eq (entries : List (Expression × Expression)) :
    entriesIds entries = (Piece.ofEntries entries).flatMap Piece.ids := by
  induction entries with
  | nil => rfl
  | cons entry rest ih => simp [entriesIds, ih, Piece.ofEntries, Piece.ids]

theorem ids_eq (e : Expression) :
    e.ids = (Piece.ofExpression e).flatMap Piece.ids ++ [e.node.id] := by
  cases e <;> simp [ids, node, Piece.ofExpression, Piece.ids, listIds_eq, entriesIds_eq]

end Expression

namespace Statement

theorem listIds_eq (body : List Statement) :
    listIds body = (body.map Piece.statement).flatMap Piece.ids := by
  induction body with
  | nil => rfl
  | cons s rest ih => rw [listIds, ih]; rfl

theorem optionalIds_eq (value : Option Expression) :
    optionalIds value = (Piece.ofValue value).flatMap Piece.ids := by
  cases value <;> simp [optionalIds, Piece.ofValue, Piece.ids]

theorem ids_eq (s : Statement) :
    s.ids = (Piece.ofStatement s).flatMap Piece.ids ++ [s.node.id] := by
  cases s with
  | branch _ _ _ otherwise => cases otherwise <;> simp [ids, node, Piece.ofStatement, Piece.ids]
  | _ => simp [ids, node, Piece.ofStatement, Piece.ids, listIds_eq, optionalIds_eq]

end Statement

theorem Reader.Passes.nextId {r r' : Reader} (h : r.Passes r') : r'.nextId = r.nextId := by
  induction h with
  | refl => rfl
  | skip _ ih => exact (ReadM.nextId_skip _).trans ih
  | missing _ _ _ ih => exact ih

/-- The pieces have the numbers that are given out while they are built, in this order. -/
theorem Builds.range_ids {r r' : Reader} {row : List Piece} (h : Builds r row r') :
    List.range r.nextId ++ row.flatMap Piece.ids = List.range r'.nextId := by
  induction h with
  | nil r => exact List.append_nil _
  | pass passes _ ih => rwa [passes.nextId] at ih
  | name _ _ ih | type _ _ ih => exact ih
  | @hole r r' _ _ _ _ _ passes _ ih =>
    have hnext : r'.nextId = r.nextId := passes.nextId
    rw [← ih, Reader.numbered, List.range_succ, hnext, List.append_assoc]
    rfl
  | expression _ _ number _ _ ihparts ih =>
    rw [← ih, Reader.numbered, List.range_succ, ← ihparts, ← number]
    simp [Piece.ids, Expression.ids_eq]
  | statement _ number _ _ ihparts ih =>
    rw [← ih, Reader.numbered, List.range_succ, ← ihparts, ← number]
    simp [Piece.ids, Statement.ids_eq]

theorem Builds.listIds {r r' : Reader} {body : List Statement}
    (h : Builds r (body.map .statement) r') (hfirst : r.nextId = 0) :
    Statement.listIds body = List.range r'.nextId := by
  rw [← h.range_ids, hfirst, List.range_zero, List.nil_append, Statement.listIds_eq]

theorem SyntaxTree.ids_ofTokens (tokens : List Token) (span : Span) :
    ∃ count, Statement.listIds (SyntaxTree.ofTokens tokens span).tree.statements =
      List.range count :=
  let ⟨_, _, hbuilds⟩ := SyntaxTree.builds_ofTokens tokens span
  ⟨_, hbuilds.listIds rfl⟩

end StackScript
