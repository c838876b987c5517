import Mathlib.Logic.Relation
import StackScript.Proofs.Tree.Numbering

set_option autoImplicit false

/-!
# Nodes in post-order

Main statement: `nodes_are_numbered_in_postorder`. Statements and expressions are taken together as
the subtrees of a tree, each with the subtrees that it is made of in the order of the source. The
numbers of a subtree are those of its parts and then its own, so where the numbers of a whole tree
are just counted up, those of a node's descendants lie below its own.
-/
namespace StackScript

inductive Subtree where
  | statement (s : Statement)
  | expression (e : Expression)

def Expression.children : Expression → List Expression
  | .literal _ _ | .name _ _ | .hole _ => []
  | .paren _ inner => [inner]
  | .unary _ _ operand => [operand]
  | .binary _ _ left right => [left, right]
  | .assign _ _ target value => [target, value]
  | .object _ properties => properties.flatMap fun property => [property.1, property.2]
  | .call _ callee arguments => callee :: arguments
  | .member _ inner _ => [inner]
  | .element _ inner index => [inner, index]

def Statement.children : Statement → List Subtree
  | .expression _ value => [.expression value]
  | .letDecl _ _ _ _ initial => initial.toList.map .expression
  | .fnDecl _ _ _ _ body => body.map .statement
  | .block _ body => body.map .statement
  | .branch _ condition body otherwise =>
    .expression condition :: .statement body :: otherwise.toList.map .statement
  | .giveBack _ value => value.toList.map .expression
  | .hole _ => []

namespace Subtree

def node : Subtree → Node
  | .statement s => s.node
  | .expression e => e.node

def children : Subtree → List Subtree
  | .statement s => s.children
  | .expression e => e.children.map .expression

def ids : Subtree → List Nat
  | .statement s => s.ids
  | .expression e => e.ids

def IsChild (child parent : Subtree) : Prop := child ∈ parent.children

/-- A part of a part, however deep. -/
abbrev IsDescendant : Subtree → Subtree → Prop := Relation.TransGen IsChild

end Subtree

namespace Piece

def subtrees : Piece → List Subtree
  | .program tree => tree.statements.map .statement
  | .statement s => [.statement s]
  | .expression e => [.expression e]
  | .name _ | .type _ => []

theorem subtrees_map {α : Type} {f : α → Piece} {g : α → Subtree}
    (h : ∀ x, (f x).subtrees = [g x]) (xs : List α) :
    (xs.map f).flatMap subtrees = xs.map g := by
  rw [List.flatMap_map, List.map_eq_flatMap]
  exact congrArg (List.flatMap · xs) (funext h)

theorem ids_eq (p : Piece) : p.ids = p.subtrees.flatMap Subtree.ids := by
  cases p with
  | program tree =>
    rw [ids, Statement.listIds_eq, subtrees, List.flatMap_map, List.flatMap_map]
    rfl
  | statement | expression => exact (List.append_nil _).symm
  | name | type => rfl

end Piece

namespace Subtree

theorem children_expression (e : Expression) :
    (expression e).children = (Piece.ofExpression e).flatMap Piece.subtrees := by
  cases e with
  | object node entries =>
    rw [children, Expression.children, List.map_flatMap, Piece.ofExpression, Piece.ofEntries,
      List.flatMap_assoc]
    rfl
  | call node callee arguments =>
    rw [Piece.ofExpression, List.flatMap_cons, Piece.subtrees_map fun _ => rfl]
    rfl
  | _ => rfl

theorem children_statement (s : Statement) :
    (statement s).children = (Piece.ofStatement s).flatMap Piece.subtrees := by
  have htypes := Piece.flatMap_ofType (f := Piece.subtrees) fun _ => rfl
  have hparameters := Piece.flatMap_ofParameters (f := Piece.subtrees) (fun _ => rfl) fun _ => rfl
  have hexpressions := Piece.subtrees_map (f := .expression) (g := expression) fun _ => rfl
  have hstatements := Piece.subtrees_map (f := .statement) (g := statement) fun _ => rfl
  cases s <;> simp [children, Statement.children, Piece.ofStatement, Piece.ofValue, Piece.subtrees,
    htypes, hparameters, hexpressions, hstatements]

/-- Post-order: the numbers of the parts, one part after another, and then the own number. -/
theorem ids_eq (t : Subtree) : t.ids = t.children.flatMap ids ++ [t.node.id] := by
  cases t with
  | statement s =>
    rw [children_statement, List.flatMap_assoc]
    simp only [← Piece.ids_eq]
    exact s.ids_eq
  | expression e =>
    rw [children_expression, List.flatMap_assoc]
    simp only [← Piece.ids_eq]
    exact e.ids_eq

theorem id_mem_ids (t : Subtree) : t.node.id ∈ t.ids := by
  rw [t.ids_eq]
  exact List.mem_append_right _ List.mem_cons_self

variable {s t : Subtree}

theorem ids_subset_of_isChild (h : IsChild s t) : s.ids ⊆ t.children.flatMap ids :=
  fun _ hid => List.mem_flatMap.mpr ⟨s, h, hid⟩

theorem ids_infix_of_mem {ts : List Subtree} (h : s ∈ ts) : s.ids <:+: ts.flatMap ids := by
  obtain ⟨before, behind, rfl⟩ := List.append_of_mem h
  rw [List.flatMap_append, List.flatMap_cons, ← List.append_assoc]
  exact ⟨_, _, rfl⟩

theorem ids_infix_of_descends (h : Relation.ReflTransGen IsChild s t) : s.ids <:+: t.ids := by
  induction h with
  | refl => exact List.infix_rfl
  | @tail parent grandparent _ hchild ih =>
    refine ih.trans ((ids_infix_of_mem hchild).trans ?_)
    rw [grandparent.ids_eq]
    exact (List.prefix_append _ _).isInfix

theorem id_lt_of_isDescendant (hsorted : t.ids.Pairwise (· < ·)) (h : IsDescendant s t) :
    s.node.id < t.node.id := by
  obtain ⟨child, hdescends, hchild⟩ := Relation.TransGen.tail'_iff.mp h
  have hmem : s.node.id ∈ t.children.flatMap ids :=
    ids_subset_of_isChild hchild ((ids_infix_of_descends hdescends).subset s.id_mem_ids)
  rw [t.ids_eq, List.pairwise_append] at hsorted
  exact hsorted.2.2 _ hmem _ List.mem_cons_self

end Subtree

namespace SyntaxTree

/-- The numbers of all nodes, those of the parts of a node before its own. -/
def ids (tree : SyntaxTree) : List Nat := Statement.listIds tree.statements

def Has (tree : SyntaxTree) (t : Subtree) : Prop :=
  ∃ s ∈ tree.statements, Relation.ReflTransGen Subtree.IsChild t (.statement s)

theorem ids_infix_of_has {tree : SyntaxTree} {t : Subtree} (h : tree.Has t) :
    t.ids <:+: tree.ids := by
  obtain ⟨s, hs, hdescends⟩ := h
  refine (Subtree.ids_infix_of_descends hdescends).trans ?_
  rw [ids, ← Piece.ids, Piece.ids_eq]
  exact Subtree.ids_infix_of_mem (List.mem_map_of_mem hs)

theorem id_lt_of_has {tree : SyntaxTree} {count : Nat} (hids : tree.ids = List.range count)
    {s t : Subtree} (ht : tree.Has t) (hs : Subtree.IsDescendant s t) :
    s.node.id < t.node.id := by
  have hsorted : tree.ids.Pairwise (· < ·) := by
    rw [hids]
    exact List.pairwise_lt_range
  exact Subtree.id_lt_of_isDescendant (hsorted.sublist (ids_infix_of_has ht).sublist) hs

/-- The reader of a source when it has come to the end. -/
def lastReader (source : String) : Reader :=
  let ahead := (tokenize source).tokens.filter fun t => !t.kind.isInvalid
  ((ReadM.statements (fun _ => false) (16 * (ahead.length + 1))).run { ahead }).2

/-- The numbers of the tree are all the numbers that its reader has given out. -/
theorem ids_read (source : String) :
    (read source).tree.ids = List.range (lastReader source).nextId := by
  simp only [ids, read, ofTokens, lastReader]
  generalize (tokenize source).tokens.filter (fun t => !t.kind.isInvalid) = ahead
  generalize 16 * (ahead.length + 1) = depth
  exact ((ReadM.buildsStatements depth).statements (fun _ => false) { ahead }).result.listIds rfl

end SyntaxTree

/-- Whether or not a text is in order, the numbers of the nodes of its tree in post-order are just
the numbers that the reader has given out, from zero on: every node that was made is in the tree. No
number is there twice, and every descendant of a node has a smaller number than the node. -/
theorem nodes_are_numbered_in_postorder (source : String) :
    (SyntaxTree.read source).tree.ids = List.range (SyntaxTree.lastReader source).nextId ∧
      (SyntaxTree.read source).tree.ids.Nodup ∧
      ∀ t, (SyntaxTree.read source).tree.Has t →
        ∀ s, Subtree.IsDescendant s t → s.node.id < t.node.id := by
  have hids := SyntaxTree.ids_read source
  refine ⟨hids, ?_, ?_⟩
  · rw [hids]
    exact List.nodup_range
  · intro t ht s hs
    exact SyntaxTree.id_lt_of_has hids ht hs

/-- A text that breaks off: the operand that is missing has a node too, and so has the statement
that gives back the value behind the arrow. -/
theorem nodes_are_numbered_in_postorder_of_faulty_text :
    (SyntaxTree.read "fn f -> (1 +").diagnostics ≠ [] ∧
      (SyntaxTree.read "fn f -> (1 +").tree.ids = [0, 1, 2, 3, 4, 5] ∧
      (SyntaxTree.lastReader "fn f -> (1 +").nextId = 6 := by
  have hfaulty : (SyntaxTree.read "fn f -> (1 +").diagnostics ≠ [] := by decide +kernel
  have hids : (SyntaxTree.read "fn f -> (1 +").tree.ids = [0, 1, 2, 3, 4, 5] := by decide +kernel
  have hrange := (nodes_are_numbered_in_postorder "fn f -> (1 +").1
  refine ⟨hfaulty, hids, ?_⟩
  have hlength := congrArg List.length (hrange.symm.trans hids)
  rwa [List.length_range] at hlength

end StackScript
