import Mathlib.Logic.Relation
import StackScript.Proofs.Heap.Scopes

set_option autoImplicit false

/-!
# Assignment through a chain of scopes

Main statement: `assignment_changes_one_binding`. A scope is made inside an older one and stays there,
so every chain of scopes ends. An assignment changes a name in the nearest scope of the chain that
has it, and nothing else. Which other scopes see the new value depends on which binding of the name
is the nearest one for them.
-/
namespace StackScript

namespace Heap

variable {heap later : Heap} {x y : String} {value : Value} {id outer owner : Nat}

/-- The later heap differs in the binding of `x` in one scope, and in nothing else that is bound. -/
structure Rebinds (heap : Heap) (id : Nat) (x : String) (value : Value) (later : Heap) : Prop where
  bound : later.binding? id x = some value
  others : ∀ other y, other ≠ id ∨ y ≠ x → later.binding? other y = heap.binding? other y

theorem rebinds_define {id : Nat} (hid : id < heap.scopes.size) (x : String) (value : Value) :
    heap.Rebinds id x value (heap.define id x value) where
  bound := binding?_define_self hid x value
  others other y hother := by
    by_cases hy : y = x
    · have hne : other ≠ id := hother.resolve_right fun h => h hy
      rw [binding?, scope_define_of_ne hne, binding?]
    · exact binding?_define_of_ne heap id other value hy

theorem owner?_of_binding {id : Nat} {x : String} (h : (heap.binding? id x).isSome) :
    heap.owner? id x = some id := by
  have hcontains : (heap.scope id).bindings.contains x = true := h
  simp [owner?, ownerWithin, hcontains]

theorem rebinds_assign {id : Nat} (hid : id < heap.scopes.size) (x : String) (value : Value) :
    heap.Rebinds ((heap.owner? id x).getD id) x value (heap.assign id x value) := by
  refine rebinds_define ?_ x value
  cases howner : heap.owner? id x with
  | none => exact hid
  | some owner => exact lt_size_of_binding (binding_of_ownerWithin howner)

theorem Rebinds.isSome (h : heap.Rebinds id x value later) {other : Nat}
    (hbound : (heap.binding? other y).isSome) : (later.binding? other y).isSome := by
  by_cases hsame : other = id ∧ y = x
  · rw [hsame.1, hsame.2, h.bound]
    rfl
  · rw [h.others other y (Decidable.not_and_iff_or_not.mp hsame)]
    exact hbound

def Encloses (heap : Heap) (outer id : Nat) : Prop := (heap.scope id).enclosing = some outer

/-- From the first scope outwards, the second one is the first that has the name. -/
inductive Nearest (heap : Heap) (x : String) : Nat → Nat → Prop where
  | here {id : Nat} (bound : (heap.binding? id x).isSome) : Nearest heap x id id
  | outwards {id outer owner : Nat} (unbound : heap.binding? id x = none)
      (encloses : heap.Encloses outer id) (rest : Nearest heap x outer owner) :
      Nearest heap x id owner

theorem Nearest.isSome (h : heap.Nearest x id owner) : (heap.binding? owner x).isSome := by
  induction h with
  | here bound => exact bound
  | outwards _ _ _ ih => exact ih

theorem nearest_of_ownerWithin {count : Nat} (h : heap.ownerWithin x count id = some owner) :
    heap.Nearest x id owner := by
  induction count generalizing id with
  | zero => cases h
  | succ count ih =>
    simp only [ownerWithin] at h
    split at h
    · rename_i hcontains
      obtain rfl := Option.some.inj h
      exact .here hcontains
    · rename_i hcontains
      cases houter : (heap.scope id).enclosing with
      | none => simp [houter] at h
      | some outer =>
        rw [houter] at h
        have hunbound : heap.binding? id x = none := by
          simpa [NameTable.contains, binding?] using hcontains
        exact .outwards hunbound houter (ih h)

/-- A scope lies only in scopes that are older. -/
def Inward (heap : Heap) : Prop := ∀ ⦃outer id : Nat⦄, heap.Encloses outer id → outer < id

/-- The search goes on long enough, since each scope has a smaller number than the one in it. -/
theorem Inward.owner?_eq_some_iff (h : heap.Inward) :
    heap.owner? id x = some owner ↔ heap.Nearest x id owner := by
  refine ⟨nearest_of_ownerWithin, fun hnearest => ?_⟩
  have hsearch : ∀ count, id < count → heap.ownerWithin x count id = some owner := by
    induction hnearest with
    | @here id bound =>
      intro count hcount
      obtain ⟨count, rfl⟩ : ∃ c, count = c + 1 := ⟨count - 1, by omega⟩
      have hcontains : (heap.scope id).bindings.contains x = true := bound
      simp [ownerWithin, hcontains]
    | @outwards id outer owner unbound encloses rest ih =>
      intro count hcount
      obtain ⟨count, rfl⟩ : ∃ c, count = c + 1 := ⟨count - 1, by omega⟩
      have hcontains : (heap.scope id).bindings.contains x = false := by
        rw [binding?] at unbound
        simp [NameTable.contains, unbound]
      have houter : (heap.scope id).enclosing = some outer := encloses
      have hlt := h encloses
      simp only [ownerWithin, hcontains, houter, Bool.false_eq_true, if_false]
      exact ih count (by omega)
  exact hsearch (id + 1) (Nat.lt_succ_self id)

theorem Inward.lookup_of_nearest (h : heap.Inward) (hnearest : heap.Nearest x id owner) :
    heap.lookup id x = (heap.binding? owner x).getD .none := by
  rw [lookup, h.owner?_eq_some_iff.mpr hnearest, binding?]

theorem lookup_of_unbound (h : ∀ owner, ¬ heap.Nearest x id owner) : heap.lookup id x = .none := by
  cases howner : heap.owner? id x with
  | none => rw [lookup, howner]
  | some owner => exact absurd (nearest_of_ownerWithin howner) (h owner)

theorem Inward.isDeclared_iff (h : heap.Inward) :
    heap.isDeclared id x = true ↔ ∃ owner, heap.Nearest x id owner := by
  rw [isDeclared, Option.isSome_iff_exists]
  exact exists_congr fun owner => h.owner?_eq_some_iff

/-- What may be done to the scopes of a heap: one is made, perhaps inside another one, or a name gets
a value. -/
inductive Change (heap : Heap) : Heap → Prop where
  | addScope {outer : Option Nat} (there : ∀ id ∈ outer, id < heap.scopes.size) :
      Change heap (heap.addScope outer).1
  | define {id : Nat} (there : id < heap.scopes.size) (x : String) (value : Value) :
      Change heap (heap.define id x value)
  | assign {id : Nat} (there : id < heap.scopes.size) (x : String) (value : Value) :
      Change heap (heap.assign id x value)

def Built (heap : Heap) : Prop := Relation.ReflTransGen Change empty heap

theorem encloses_define : (heap.define id x value).Encloses outer owner ↔
    heap.Encloses outer owner := by
  rw [Encloses, enclosing_define, Encloses]

theorem encloses_addScope {enclosing : Option Nat} (h : id ≠ heap.scopes.size) :
    (heap.addScope enclosing).1.Encloses outer id ↔ heap.Encloses outer id := by
  rw [Encloses, scope_addScope_of_ne heap enclosing h, Encloses]

theorem Inward.change (h : heap.Inward) (hchange : heap.Change later) : later.Inward := by
  intro outer id hencloses
  cases hchange with
  | @addScope enclosing there =>
    by_cases hid : id = heap.scopes.size
    · subst hid
      rw [Encloses, scope_addScope_new] at hencloses
      exact there outer hencloses
    · exact h ((encloses_addScope hid).mp hencloses)
  | define there x value => exact h (encloses_define.mp hencloses)
  | assign there x value => exact h (encloses_define.mp hencloses)

theorem Built.inward (h : heap.Built) : heap.Inward := by
  induction h with
  | refl =>
    intro outer id hencloses
    rw [Encloses, scope_of_size_le (Nat.zero_le id)] at hencloses
    cases hencloses
  | tail _ hchange ih => exact ih.change hchange

theorem Inward.wellFounded (h : heap.Inward) : WellFounded heap.Encloses :=
  Subrelation.wf @h Nat.lt_wfRel.wf

theorem Nearest.kept (h : heap.Nearest x id owner)
    (hbindings : ∀ id, (heap.binding? id x).isSome → (later.binding? id x).isSome)
    (hencloses : ∀ outer id, heap.Encloses outer id → later.Encloses outer id) :
    ∃ owner', later.Nearest x id owner' := by
  induction h with
  | here bound => exact ⟨_, .here (hbindings _ bound)⟩
  | @outwards id outer owner unbound encloses rest ih =>
    obtain ⟨owner', hrest⟩ := ih
    cases hbinding : later.binding? id x with
    | none => exact ⟨owner', .outwards hbinding (hencloses _ _ encloses) hrest⟩
    | some value => exact ⟨id, .here (by rw [hbinding]; rfl)⟩

theorem Change.nearest (hchange : heap.Change later) (h : heap.Nearest x id owner) :
    ∃ owner', later.Nearest x id owner' := by
  cases hchange with
  | addScope there =>
    refine h.kept (fun other hbound => ?_) fun outer other hencloses => ?_
    · rwa [binding?_addScope]
    · refine (encloses_addScope ?_).mpr hencloses
      rintro rfl
      rw [Encloses, scope_of_size_le (Nat.le_refl _)] at hencloses
      cases hencloses
  | define there y value =>
    exact h.kept (fun _ => (rebinds_define there y value).isSome) fun _ _ => encloses_define.mpr
  | assign there y value =>
    exact h.kept (fun _ => (rebinds_assign there y value).isSome) fun _ _ => encloses_define.mpr

theorem Inward.isDeclared_later (h : heap.Inward)
    (hlater : Relation.ReflTransGen Change heap later) (hdeclared : heap.isDeclared id x = true) :
    later.isDeclared id x = true := by
  have hkept : later.Inward ∧ ∃ owner, later.Nearest x id owner := by
    induction hlater with
    | refl => exact ⟨h, h.isDeclared_iff.mp hdeclared⟩
    | tail _ hchange ih =>
      obtain ⟨hinward, owner, hnearest⟩ := ih
      exact ⟨hinward.change hchange, hchange.nearest hnearest⟩
  exact hkept.1.isDeclared_iff.mpr hkept.2

section

variable {target : Nat} (h : heap.Rebinds target x value later)
  (hencloses : ∀ outer id, later.Encloses outer id ↔ heap.Encloses outer id)

include h hencloses

theorem Rebinds.nearest_target (hnearest : heap.Nearest x id target) :
    later.Nearest x id target := by
  induction hnearest with
  | here bound => exact .here (by rw [h.bound]; rfl)
  | @outwards id outer owner unbound encloses rest ih =>
    refine .outwards ?_ ((hencloses _ _).mpr encloses) (ih h)
    -- The binding that changed was there before, so this scope is another one.
    rw [h.others id x (.inl fun hid => ?_)]
    · exact unbound
    · have hbound := rest.isSome
      rw [← hid, unbound] at hbound
      cases hbound

theorem Rebinds.nearest_of_ne (hnearest : later.Nearest x id owner) (hne : owner ≠ target) :
    heap.Nearest x id owner := by
  -- What leads to another binding leads past the one that changed.
  induction hnearest with
  | @here id bound => exact .here (by rwa [← h.others id x (.inl hne)])
  | @outwards id outer owner unbound encloses rest ih =>
    refine .outwards ?_ ((hencloses _ _).mp encloses) (ih hne)
    rw [← h.others id x (.inl fun hid => ?_)]
    · exact unbound
    · rw [hid, h.bound] at unbound
      cases unbound

theorem Rebinds.lookup_of_not_nearest (hinward : heap.Inward) (hinward' : later.Inward)
    (hnot : ¬ later.Nearest x id target) : later.lookup id x = heap.lookup id x := by
  by_cases hsome : ∃ owner, later.Nearest x id owner
  · obtain ⟨owner, hnearest⟩ := hsome
    have hne : owner ≠ target := fun howner => hnot (howner ▸ hnearest)
    rw [hinward'.lookup_of_nearest hnearest,
      hinward.lookup_of_nearest (h.nearest_of_ne hencloses hnearest hne), h.others owner x (.inl hne)]
  · have hnone : ∀ owner, ¬ heap.Nearest x id owner := fun owner hnearest =>
      hsome (hnearest.kept (fun _ => h.isSome) fun _ _ => (hencloses _ _).mpr)
    rw [lookup_of_unbound fun owner hnearest => hsome ⟨owner, hnearest⟩, lookup_of_unbound hnone]

end

theorem Nearest.congr (h : heap.Nearest y id owner)
    (hbindings : ∀ id, later.binding? id y = heap.binding? id y)
    (hencloses : ∀ outer id, heap.Encloses outer id → later.Encloses outer id) :
    later.Nearest y id owner := by
  induction h with
  | here bound => exact .here (by rwa [hbindings])
  | outwards unbound encloses _ ih =>
    exact .outwards (by rwa [hbindings]) (hencloses _ _ encloses) ih

theorem Rebinds.lookup_of_ne {target : Nat} (h : heap.Rebinds target x value later)
    (hencloses : ∀ outer id, later.Encloses outer id ↔ heap.Encloses outer id)
    (hinward : heap.Inward) (hinward' : later.Inward) (hy : y ≠ x) :
    later.lookup id y = heap.lookup id y := by
  have hsame : ∀ id, later.binding? id y = heap.binding? id y := fun id => h.others id y (.inr hy)
  by_cases hsome : ∃ owner, heap.Nearest y id owner
  · obtain ⟨owner, hnearest⟩ := hsome
    have hnearest' := hnearest.congr hsame fun _ _ => (hencloses _ _).mpr
    rw [hinward.lookup_of_nearest hnearest, hinward'.lookup_of_nearest hnearest', hsame]
  · have hnone : ∀ owner, ¬ later.Nearest y id owner := fun owner hnearest =>
      hsome ⟨owner, hnearest.congr (fun id => (hsame id).symm) fun _ _ => (hencloses _ _).mp⟩
    rw [lookup_of_unbound fun owner hnearest => hsome ⟨owner, hnearest⟩, lookup_of_unbound hnone]

def Receives (heap : Heap) (s : Nat) (x : String) (target : Nat) : Prop :=
  heap.Nearest x s target ∨ (∀ owner, ¬ heap.Nearest x s owner) ∧ target = s

theorem Inward.receives (h : heap.Inward) (s : Nat) (x : String) :
    heap.Receives s x ((heap.owner? s x).getD s) := by
  cases howner : heap.owner? s x with
  | some owner => exact .inl (nearest_of_ownerWithin howner)
  | none =>
    refine .inr ⟨fun owner hnearest => ?_, rfl⟩
    rw [h.owner?_eq_some_iff.mpr hnearest] at howner
    cases howner

theorem Rebinds.nearest_receiver {s target : Nat} (h : heap.Rebinds target x value later)
    (hencloses : ∀ outer id, later.Encloses outer id ↔ heap.Encloses outer id)
    (htarget : heap.Receives s x target) : later.Nearest x s target := by
  obtain hnearest | ⟨-, rfl⟩ := htarget
  · exact h.nearest_target hencloses hnearest
  · exact .here (by rw [h.bound]; rfl)

end Heap

/-- However the scopes of a heap were made and changed, every chain of them ends. An assignment to
`x` in the scope `s` changes one entry: `x` in the nearest scope from `s` that has it, or in `s` if
none has. From `s` the new value is seen, and so it is from every scope for which the changed
binding is now the nearest one; from the others `x` has the value it had, and so has every other
name from everywhere. A name that is declared stays declared, also after further changes. -/
theorem assignment_changes_one_binding (heap : Heap) (h : heap.Built) (s : Nat)
    (hs : s < heap.scopes.size) (x : String) (v : Value) :
    WellFounded heap.Encloses ∧
      ∃ target, (heap.Nearest x s target ∨ (∀ owner, ¬ heap.Nearest x s owner) ∧ target = s) ∧
        heap.Rebinds target x v (heap.assign s x v) ∧
        (∀ outer id, (heap.assign s x v).Encloses outer id ↔ heap.Encloses outer id) ∧
        (heap.assign s x v).lookup s x = v ∧
        (∀ g, (heap.assign s x v).Nearest x g target → (heap.assign s x v).lookup g x = v) ∧
        (∀ g, ¬ (heap.assign s x v).Nearest x g target →
          (heap.assign s x v).lookup g x = heap.lookup g x) ∧
        (∀ g y, y ≠ x → (heap.assign s x v).lookup g y = heap.lookup g y) ∧
        ∀ later, Relation.ReflTransGen Heap.Change (heap.assign s x v) later →
          ∀ g y, heap.isDeclared g y = true → later.isDeclared g y = true := by
  have hinward := h.inward
  have hchange : heap.Change (heap.assign s x v) := .assign hs x v
  have hinward' := hinward.change hchange
  have hencloses : ∀ outer id, (heap.assign s x v).Encloses outer id ↔ heap.Encloses outer id :=
    fun _ _ => Heap.encloses_define
  have htarget := hinward.receives s x
  have hrebinds := Heap.rebinds_assign hs x v
  generalize (heap.owner? s x).getD s = target at htarget hrebinds
  have hseen : ∀ g, (heap.assign s x v).Nearest x g target →
      (heap.assign s x v).lookup g x = v := by
    intro g hnearest
    rw [hinward'.lookup_of_nearest hnearest, hrebinds.bound, Option.getD_some]
  exact ⟨hinward.wellFounded, target, htarget, hrebinds, hencloses,
    hseen s (hrebinds.nearest_receiver hencloses htarget), hseen,
    fun g hnot => hrebinds.lookup_of_not_nearest hencloses hinward hinward' hnot,
    fun g y hy => hrebinds.lookup_of_ne hencloses hinward hinward' hy,
    fun later hlater g y => hinward.isDeclared_later (hlater.head hchange)⟩

/-- Two scopes lie in a global one that has `x`, and one of them has an `x` of its own. An
assignment in the other goes to the global scope and is not seen from the first. -/
theorem assignment_changes_one_binding_past_shadow :
    let global := Heap.withGlobalScope.define 0 "x" (.int 1)
    let shadowed := (global.addScope (some 0)).1.define 1 "x" (.int 2)
    let heap := (shadowed.addScope (some 0)).1
    heap.Built ∧ 2 < heap.scopes.size ∧ heap.Nearest "x" 2 0 ∧
      (heap.assign 2 "x" (.int 3)).lookup 2 "x" = .int 3 ∧
      (heap.assign 2 "x" (.int 3)).lookup 0 "x" = .int 3 ∧
      (heap.assign 2 "x" (.int 3)).lookup 1 "x" = .int 2 := by
  intro global shadowed heap
  have hglobal : global.Built :=
    .tail (.single (.addScope (by simp))) (.define (by decide) "x" (.int 1))
  have hshadowed : shadowed.Built :=
    .tail (hglobal.tail (.addScope (by decide))) (.define (by decide) "x" (.int 2))
  have hbuilt : heap.Built := hshadowed.tail (.addScope (by decide))
  have hnearest : heap.Nearest "x" 2 0 := .outwards rfl rfl (.here rfl)
  obtain ⟨-, target, htarget, -, -, hself, hseen, hkept, -⟩ :=
    assignment_changes_one_binding heap hbuilt 2 (by decide) "x" (.int 3)
  obtain rfl : target = 0 := by
    have howner := hbuilt.inward.owner?_eq_some_iff.mpr hnearest
    obtain hfound | ⟨hnone, -⟩ := htarget
    · rw [hbuilt.inward.owner?_eq_some_iff.mpr hfound] at howner
      exact Option.some.inj howner
    · exact absurd hnearest (hnone 0)
  have hpast : ¬ (heap.assign 2 "x" (.int 3)).Nearest "x" 1 0 := by
    intro hreaches
    cases hreaches with
    | outwards unbound _ _ => cases unbound
  exact ⟨hbuilt, by decide, hnearest, hself, hseen 0 (.here rfl), hkept 1 hpast⟩

end StackScript
