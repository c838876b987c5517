import Mathlib.Logic.Relation
import StackScript.Tree.Basic

set_option autoImplicit false

/-!
# The pieces of a tree

Everything in a tree that has a span is one of its pieces: the program itself, its statements and
expressions, the names that are no expressions, and the types. What holds of a tree is mostly said of
its pieces, one level at a time.
-/
namespace StackScript

def TypeRef.names : TypeRef → List Name
  | .named name => [name]
  | .union members _ => members

inductive Piece where
  | program (tree : SyntaxTree)
  | statement (s : Statement)
  | expression (e : Expression)
  | name (label : Name)
  | type (ref : TypeRef)

namespace Piece

def span : Piece → Span
  | .program tree => tree.span
  | .statement s => s.span
  | .expression e => e.span
  | .name label => label.span
  | .type ref => ref.span

def ofType (type : Option TypeRef) : List Piece := type.toList.map .type

def ofValue (value : Option Expression) : List Piece := value.toList.map .expression

def ofParameters (parameters : List Parameter) : List Piece :=
  parameters.flatMap fun parameter => .name parameter.name :: ofType parameter.type

def ofEntries (entries : List (Expression × Expression)) : List Piece :=
  entries.flatMap fun entry => [.expression entry.1, .expression entry.2]

def ofExpression : Expression → List Piece
  | .literal _ _ | .name _ _ | .hole _ => []
  | .paren _ inner => [.expression inner]
  | .unary _ _ operand => [.expression operand]
  | .binary _ _ left right => [.expression left, .expression right]
  | .assign _ _ target value => [.expression target, .expression value]
  | .object _ entries => ofEntries entries
  | .call _ callee arguments => .expression callee :: arguments.map .expression
  | .member _ inner label => [.expression inner, .name label]
  | .element _ inner index => [.expression inner, .expression index]

def ofStatement : Statement → List Piece
  | .expression _ value => [.expression value]
  | .letDecl _ _ label ref initial => .name label :: (ofType ref ++ ofValue initial)
  | .fnDecl _ label parameters result body =>
    .name label :: (ofParameters parameters ++ (ofType result ++ body.map .statement))
  | .block _ body => body.map .statement
  | .branch _ condition body otherwise =>
    .expression condition :: .statement body :: otherwise.toList.map .statement
  | .giveBack _ value => ofValue value
  | .hole _ => []

section

variable {α : Type} {f : Piece → List α}

theorem flatMap_ofType (htype : ∀ ref, f (.type ref) = []) (type : Option TypeRef) :
    (ofType type).flatMap f = [] := by
  cases type with
  | none => rfl
  | some ref => simp [ofType, htype]

theorem flatMap_ofParameters (hname : ∀ label, f (.name label) = [])
    (htype : ∀ ref, f (.type ref) = []) (parameters : List Parameter) :
    (ofParameters parameters).flatMap f = [] := by
  induction parameters with
  | nil => rfl
  | cons parameter rest ih =>
    rw [ofParameters, List.flatMap_cons, List.flatMap_append, ← ofParameters, ih, List.append_nil,
      List.flatMap_cons, hname, flatMap_ofType htype, List.append_nil]

end

/-- The pieces that this one is made of, in the order of the source. -/
def inner : Piece → List Piece
  | .program tree => tree.statements.map .statement
  | .statement s => ofStatement s
  | .expression e => ofExpression e
  | .name _ => []
  | .type ref => ref.names.map .name

/-- The piece and all that it is made of, however deep, are in `Q`. -/
inductive All (Q : Piece → Prop) : Piece → Prop where
  | mk {p : Piece} (own : Q p) (within : ∀ q ∈ p.inner, All Q q) : All Q p

end Piece

/-- A piece of the tree, however deep. -/
def SyntaxTree.HasPiece (tree : SyntaxTree) : Piece → Prop :=
  Relation.ReflTransGen (fun whole p => p ∈ whole.inner) (.program tree)

theorem SyntaxTree.HasPiece.of_all {tree : SyntaxTree} {p : Piece} {Q : Piece → Prop}
    (h : tree.HasPiece p) (hall : (Piece.program tree).All Q) : Q p := by
  have hpiece : p.All Q := by
    induction h with
    | refl => exact hall
    | tail _ hmem ih =>
      cases ih with
      | mk _ within => exact within _ hmem
  cases hpiece with
  | mk own _ => exact own

end StackScript
