import StackScript.Proofs.Tree.Building

set_option autoImplicit false

/-!
# The annotations of a tree

Main statement: `SyntaxTree.canonical_of_mem_annotations`. Whether or not a text is in order, every
union among the types that its declarations are annotated with has two members at least.
-/
namespace StackScript

namespace Statement

mutual

/-- The types that the declarations in a statement are annotated with. -/
def annotations : Statement → List TypeRef
  | .expression _ _ | .giveBack _ _ | .hole _ => []
  | .letDecl _ _ _ type _ => type.toList
  | .fnDecl _ _ parameters result body =>
    parameters.filterMap (·.type) ++ result.toList ++ listAnnotations body
  | .block _ body => listAnnotations body
  | .branch _ _ body otherwise =>
    let other := match otherwise with
      | some s => annotations s
      | none => []
    annotations body ++ other
termination_by structural s => s

def listAnnotations : List Statement → List TypeRef
  | [] => []
  | s :: rest => annotations s ++ listAnnotations rest
termination_by structural ss => ss

end

end Statement

def SyntaxTree.annotations (tree : SyntaxTree) : List TypeRef :=
  Statement.listAnnotations tree.statements

namespace Piece

def annotations : Piece → List TypeRef
  | .program tree => tree.annotations
  | .statement s => s.annotations
  | .type ref => [ref]
  | .expression _ | .name _ => []

@[simp]
theorem annotations_ofType (type : Option TypeRef) :
    (ofType type).flatMap annotations = type.toList := by
  cases type <;> rfl

@[simp]
theorem annotations_ofParameters (parameters : List Parameter) :
    (ofParameters parameters).flatMap annotations = parameters.filterMap (·.type) := by
  induction parameters with
  | nil => rfl
  | cons parameter rest ih =>
    rw [ofParameters, List.flatMap_cons, List.flatMap_append, ← ofParameters, ih,
      List.flatMap_cons, annotations_ofType]
    cases htype : parameter.type <;> simp [annotations, htype]

@[simp]
theorem annotations_ofValue (value : Option Expression) :
    (ofValue value).flatMap annotations = [] := by
  cases value <;> rfl

@[simp]
theorem annotations_statements (body : List Statement) :
    (body.map statement).flatMap annotations = Statement.listAnnotations body := by
  induction body with
  | nil => rfl
  | cons s rest ih => rw [Statement.listAnnotations, ← ih]; rfl

end Piece

theorem Statement.annotations_eq (s : Statement) :
    s.annotations = (Piece.ofStatement s).flatMap Piece.annotations := by
  cases s with
  | branch _ _ _ otherwise =>
    cases otherwise <;> simp [annotations, Piece.ofStatement, Piece.annotations]
  | _ => simp [annotations, Piece.ofStatement, Piece.annotations]

theorem Builds.canonical {r r' : Reader} {row : List Piece} (h : Builds r row r') :
    ∀ ref ∈ row.flatMap Piece.annotations, ref.Canonical := by
  induction h with
  | nil r => exact nofun
  | pass _ _ ih | name _ _ ih | hole _ _ _ _ ih | expression _ _ _ _ _ _ ih => exact ih
  | type readBy _ ih => exact List.forall_mem_cons.mpr ⟨readBy.canonical, ih⟩
  | statement _ _ _ _ ihparts ih =>
    rw [List.flatMap_cons, List.forall_mem_append, Piece.annotations, Statement.annotations_eq]
    exact ⟨ihparts, ih⟩

theorem SyntaxTree.canonical_of_mem_annotations {source : String} {ref : TypeRef}
    (h : ref ∈ (SyntaxTree.read source).tree.annotations) : ref.Canonical := by
  obtain ⟨last, -, hbuilds⟩ :=
    SyntaxTree.builds_ofTokens (tokenize source).tokens ⟨0, source.utf8ByteSize⟩
  have hcanonical := hbuilds.canonical
  rw [Piece.annotations_statements] at hcanonical
  exact hcanonical ref h

end StackScript
