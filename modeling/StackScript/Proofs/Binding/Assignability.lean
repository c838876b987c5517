import StackScript.StaticType
import StackScript.Proofs.Tree.Annotations

set_option autoImplicit false

/-!
# Assignability as overlap

Main statement: `assignability_is_overlap`. A type is taken apart into its leaves, the types in it
that are no unions. One type is assignable to another if they have a leaf in common or one of them
has everything as a leaf; how their unions are built does not matter.

A union without leaves is the exception: it is assignable to nothing but everything, not even to
itself. No annotation means such a type.
-/
namespace StackScript

namespace StaticType

mutual

/-- The types in a type that are no unions, however deep. -/
def leaves : StaticType → List StaticType
  | .primitive p => [.primitive p]
  | .any => [.any]
  | .union members => listLeaves members
termination_by structural type => type

def listLeaves : List StaticType → List StaticType
  | [] => []
  | type :: rest => type.leaves ++ listLeaves rest
termination_by structural types => types

end

theorem listLeaves_eq (types : List StaticType) : listLeaves types = types.flatMap leaves := by
  induction types with
  | nil => rfl
  | cons type rest ih => rw [listLeaves, ih, List.flatMap_cons]

theorem mem_leaves_union {leaf : StaticType} {members : List StaticType} :
    leaf ∈ (union members).leaves ↔ ∃ member ∈ members, leaf ∈ member.leaves := by
  rw [leaves, listLeaves_eq, List.mem_flatMap]

mutual

theorem admits_iff (p : Primitive) : (type : StaticType) →
    (admits p type = true ↔ .any ∈ type.leaves ∨ .primitive p ∈ type.leaves)
  | .primitive q => by simp [admits, leaves]
  | .any => by simp [admits, leaves]
  | .union members => anyAdmits_iff p members

theorem anyAdmits_iff (p : Primitive) : (types : List StaticType) →
    (anyAdmits p types = true ↔ .any ∈ listLeaves types ∨ .primitive p ∈ listLeaves types)
  | [] => by simp [anyAdmits, listLeaves]
  | type :: rest => by
    rw [anyAdmits, Bool.or_eq_true, admits_iff p type, anyAdmits_iff p rest, listLeaves,
      List.mem_append, List.mem_append, or_or_or_comm]

end

/-- The leaf and the type have something in common. -/
def Meets (leaf target : StaticType) : Prop :=
  leaf = .any ∨ .any ∈ target.leaves ∨ leaf ∈ target.leaves

mutual

theorem fits_iff {target : StaticType} (h : target.isAny = false) : (type : StaticType) →
    (fits target type = true ↔ ∃ leaf ∈ type.leaves, leaf.Meets target)
  | .primitive p => by simp [fits, leaves, Meets, admits_iff]
  | .any => by simp [fits, leaves, Meets]
  | .union members => by
    rw [fits, h, Bool.false_or]
    exact anyFits_iff h members

theorem anyFits_iff {target : StaticType} (h : target.isAny = false) :
    (types : List StaticType) →
    (anyFits target types = true ↔ ∃ leaf ∈ listLeaves types, leaf.Meets target)
  | [] => by simp [anyFits, listLeaves]
  | type :: rest => by
    rw [anyFits, Bool.or_eq_true, fits_iff h type, anyFits_iff h rest, listLeaves]
    simp only [List.mem_append, or_and_right, exists_or]

end

/-- The types have a leaf in common, or one of them has everything as a leaf. -/
def Overlap (s t : StaticType) : Prop :=
  .any ∈ s.leaves ∨ .any ∈ t.leaves ∨ ∃ leaf ∈ s.leaves, leaf ∈ t.leaves

namespace Overlap

variable {s s' t t' : StaticType}

theorem refl (h : s.leaves ≠ []) : Overlap s s :=
  .inr (.inr ((List.exists_mem_of_ne_nil _ h).imp fun _ hleaf => ⟨hleaf, hleaf⟩))

theorem symm (h : Overlap s t) : Overlap t s := by
  obtain hsource | htarget | ⟨leaf, hsource, htarget⟩ := h
  · exact .inr (.inl hsource)
  · exact .inl htarget
  · exact .inr (.inr ⟨leaf, htarget, hsource⟩)

theorem mono (h : Overlap s t) (hs : s.leaves ⊆ s'.leaves) (ht : t.leaves ⊆ t'.leaves) :
    Overlap s' t' := by
  obtain hsource | htarget | ⟨leaf, hsource, htarget⟩ := h
  · exact .inl (hs hsource)
  · exact .inr (.inl (ht htarget))
  · exact .inr (.inr ⟨leaf, hs hsource, ht htarget⟩)

end Overlap

theorem isAssignableTo_iff {s t : StaticType} (h : s.leaves ≠ []) :
    s.isAssignableTo t = true ↔ Overlap s t := by
  by_cases heverything : t = .any
  · have hfits : s.isAssignableTo .any = true := by cases s <;> rfl
    rw [heverything]
    exact iff_of_true hfits (.inr (.inl List.mem_cons_self))
  · have hany : t.isAny = false := by
      cases t with
      | any => exact absurd rfl heverything
      | primitive p => rfl
      | union members => rfl
    rw [isAssignableTo, fits_iff hany s]
    constructor
    · rintro ⟨leaf, hleaf, rfl | htarget | hcommon⟩
      · exact .inl hleaf
      · exact .inr (.inl htarget)
      · exact .inr (.inr ⟨leaf, hleaf, hcommon⟩)
    · rintro (hsource | htarget | ⟨leaf, hsource, htarget⟩)
      · exact ⟨.any, hsource, .inl rfl⟩
      · obtain ⟨leaf, hleaf⟩ := List.exists_mem_of_ne_nil _ h
        exact ⟨leaf, hleaf, .inr (.inl htarget)⟩
      · exact ⟨leaf, hsource, .inr (.inr htarget)⟩

/-- The types differ only in how unions are nested, in the order of their members, and in how often
a member is repeated. -/
inductive Rearranged : StaticType → StaticType → Prop where
  | refl (t : StaticType) : Rearranged t t
  | symm {s t : StaticType} (h : Rearranged s t) : Rearranged t s
  | trans {s t u : StaticType} (first : Rearranged s t) (second : Rearranged t u) : Rearranged s u
  /-- A union of one member is that member. -/
  | alone (t : StaticType) : Rearranged (.union [t]) t
  /-- The members of a union in a union are members of that. -/
  | nested (before inner behind : List StaticType) :
      Rearranged (.union (before ++ .union inner :: behind)) (.union (before ++ inner ++ behind))
  | order {members members' : List StaticType} (h : members.Perm members') :
      Rearranged (.union members) (.union members')
  | repeated {t : StaticType} {members : List StaticType} (h : t ∈ members) :
      Rearranged (.union (t :: members)) (.union members)
  | inside {t t' : StaticType} (before behind : List StaticType) (h : Rearranged t t') :
      Rearranged (.union (before ++ t :: behind)) (.union (before ++ t' :: behind))

theorem Rearranged.mem_leaves {s t : StaticType} (h : Rearranged s t) (leaf : StaticType) :
    leaf ∈ s.leaves ↔ leaf ∈ t.leaves := by
  induction h with
  | refl t => exact Iff.rfl
  | symm _ ih => exact ih.symm
  | trans _ _ ih ih' => exact ih.trans ih'
  | alone t => simp [mem_leaves_union]
  | nested before inner behind =>
    simp only [mem_leaves_union, List.mem_append, List.mem_cons, or_and_right, exists_or,
      exists_eq_left, or_assoc]
  | order h => simp only [mem_leaves_union, h.mem_iff]
  | repeated h =>
    simp only [mem_leaves_union, List.mem_cons, or_and_right, exists_or, exists_eq_left]
    exact or_iff_right_of_imp fun hleaf => ⟨_, h, hleaf⟩
  | inside before behind _ ih =>
    simp only [mem_leaves_union, List.mem_append, List.mem_cons, or_and_right, exists_or,
      exists_eq_left, ih]

theorem Rearranged.leaves_ne_nil {s t : StaticType} (h : Rearranged s t) (hs : s.leaves ≠ []) :
    t.leaves ≠ [] := by
  obtain ⟨leaf, hleaf⟩ := List.exists_mem_of_ne_nil _ hs
  exact List.ne_nil_of_mem ((h.mem_leaves leaf).mp hleaf)

theorem Overlap.rearranged {s s' t t' : StaticType} (hs : Rearranged s s') (ht : Rearranged t t') :
    Overlap s t ↔ Overlap s' t' :=
  ⟨fun h => h.mono (fun leaf => (hs.mem_leaves leaf).mp) fun leaf => (ht.mem_leaves leaf).mp,
    fun h => h.mono (fun leaf => (hs.mem_leaves leaf).mpr) fun leaf => (ht.mem_leaves leaf).mpr⟩

/-- Every union in the type has a leaf. -/
inductive Filled : StaticType → Prop where
  | primitive (p : Primitive) : Filled (.primitive p)
  | any : Filled .any
  | union {members : List StaticType} (leaf : (union members).leaves ≠ [])
      (inner : ∀ member ∈ members, Filled member) : Filled (.union members)

theorem Filled.leaves_ne_nil {t : StaticType} (h : t.Filled) : t.leaves ≠ [] := by
  cases h with
  | primitive p => exact List.cons_ne_nil _ _
  | any => exact List.cons_ne_nil _ _
  | union leaf _ => exact leaf

theorem filled_union {members : List StaticType} (hsome : members ≠ [])
    (h : ∀ member ∈ members, member.Filled) : (union members).Filled := by
  refine .union ?_ h
  obtain ⟨member, hmember⟩ := List.exists_mem_of_ne_nil _ hsome
  obtain ⟨leaf, hleaf⟩ := List.exists_mem_of_ne_nil _ (h member hmember).leaves_ne_nil
  exact List.ne_nil_of_mem (mem_leaves_union.mpr ⟨member, hmember, hleaf⟩)

theorem filled_number : number.Filled :=
  filled_union (List.cons_ne_nil _ _) (List.forall_mem_cons.mpr
    ⟨.primitive .int, List.forall_mem_singleton.mpr (.primitive .float)⟩)

theorem filled_ofName (name : String) : ((ofName? name).getD any).Filled := by
  unfold ofName?
  -- a name means a primitive type, the union of two of them, or everything
  split <;> first | exact .primitive _ | exact filled_number | exact .any

theorem filled_ofRef {ref : TypeRef} (h : ref.Canonical) : (ofRef ref).Filled := by
  cases ref with
  | named name => exact filled_ofName name.text
  | union members span =>
    have hsome : members ≠ [] := List.ne_nil_of_length_pos (Nat.lt_of_lt_of_le Nat.zero_lt_two h)
    refine filled_union (fun hnil => hsome (List.map_eq_nil_iff.mp hnil)) ?_
    exact List.forall_mem_map.mpr fun name _ => filled_ofName name.text

end StaticType

open StaticType

/-- A type that has a leaf is assignable to just the types that it overlaps with: one of the two has
everything as a leaf, or they have a leaf in common. So among the types with leaves assignability is
reflexive and symmetric, and it is the same for types that differ only in how their unions are
nested, ordered and repeated. A type each of whose unions has a leaf has one itself, and such is the
type of every annotation in the tree of a text. -/
theorem assignability_is_overlap :
    (∀ s t : StaticType, s.leaves ≠ [] → (s.isAssignableTo t = true ↔
      .any ∈ s.leaves ∨ .any ∈ t.leaves ∨ ∃ leaf ∈ s.leaves, leaf ∈ t.leaves)) ∧
    (∀ s : StaticType, s.leaves ≠ [] → s.isAssignableTo s = true) ∧
    (∀ s t : StaticType, s.leaves ≠ [] → t.leaves ≠ [] →
      s.isAssignableTo t = t.isAssignableTo s) ∧
    (∀ s s' t t' : StaticType, s.leaves ≠ [] → Rearranged s s' → Rearranged t t' →
      s.isAssignableTo t = s'.isAssignableTo t') ∧
    (∀ t : StaticType, t.Filled → t.leaves ≠ []) ∧
    ∀ source, ∀ ref ∈ (SyntaxTree.read source).tree.annotations, (ofRef ref).Filled := by
  refine ⟨fun s t hs => isAssignableTo_iff hs, fun s hs => (isAssignableTo_iff hs).mpr (.refl hs),
    fun s t hs ht => ?_, fun s s' t t' hs hss' htt' => ?_, fun t ht => ht.leaves_ne_nil,
    fun source ref href => filled_ofRef (SyntaxTree.canonical_of_mem_annotations href)⟩
  · rw [Bool.eq_iff_iff, isAssignableTo_iff hs, isAssignableTo_iff ht]
    exact ⟨.symm, .symm⟩
  · rw [Bool.eq_iff_iff, isAssignableTo_iff hs, isAssignableTo_iff (hss'.leaves_ne_nil hs)]
    exact Overlap.rearranged hss' htt'

/-- The string that both unions have inside is what they overlap in, and an empty union in one of
them is in the way of nothing. -/
theorem assignability_is_overlap_of_nested_unions :
    let s : StaticType := .union [.union [], .union [.int, .string]]
    let t : StaticType := .union [.char, .union [.string]]
    s.leaves = [.int, .string] ∧ t.leaves = [.char, .string] ∧ s.isAssignableTo t = true ∧
      t.isAssignableTo s = true ∧
      (StaticType.union [.string, .int]).isAssignableTo (.union [t]) = true ∧
      (SyntaxTree.read "fn f(a: number | nothing) -> a").tree.annotations.length = 1 ∧
      ∀ ref ∈ (SyntaxTree.read "fn f(a: number | nothing) -> a").tree.annotations,
        (ofRef ref).Filled := by
  intro s t
  have hs : s.leaves ≠ [] := List.cons_ne_nil _ _
  have ht : t.leaves ≠ [] := List.cons_ne_nil _ _
  obtain ⟨hoverlap, -, hsymm, hsame, -, hfilled⟩ := assignability_is_overlap
  have hst : s.isAssignableTo t = true :=
    (hoverlap s t hs).mpr (.inr (.inr ⟨.string, by simp [s, leaves, listLeaves, int, string],
      by simp [t, leaves, listLeaves, char, string]⟩))
  have hflat : Rearranged s (.union [.string, .int]) :=
    .trans (.nested [] [] [_]) (.trans (.alone _) (.order (.swap ..)))
  refine ⟨rfl, rfl, hst, hsymm s t hs ht ▸ hst, ?_, by decide +kernel, hfilled _⟩
  exact hsame s _ t (.union [t]) hs hflat (.symm (.alone t)) ▸ hst

/-- Without leaves a union is not even assignable to itself. -/
example : (StaticType.union []).isAssignableTo (.union []) = false := rfl

end StackScript
