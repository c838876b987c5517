import StackScript.Heap

set_option autoImplicit false

/-!
# Bindings and chains of scopes

What the operations of the heap do to each single binding, and that none of them takes a scope or a
closure away. `Heap.binding?` looks at one scope only, `Heap.lookup` goes through its chain.
-/
namespace StackScript

theorem NameTable.get?_cons {α : Type} (key name : String) (value : α)
    (rest : List (String × α)) :
    (NameTable.mk ((key, value) :: rest)).get? name =
      if name = key then some value else (NameTable.mk rest).get? name := by
  by_cases h : name = key
  · simp [NameTable.get?, h]
  · have hbeq : (name == key) = false := beq_false_of_ne h
    simp [NameTable.get?, List.lookup_cons, hbeq, h]

theorem NameTable.get?_insert {α : Type} (table : NameTable α) (name other : String) (value : α) :
    (table.insert name value).get? other =
      if other = name then some value else table.get? other := by
  obtain ⟨entries⟩ := table
  unfold NameTable.insert
  induction entries with
  | nil => exact NameTable.get?_cons name other value []
  | cons entry rest ih =>
    obtain ⟨key, old⟩ := entry
    by_cases hkey : key = name
    · subst hkey
      simp only [NameTable.insertEntry, beq_self_eq_true, ↓reduceIte, NameTable.get?_cons]
      split <;> rfl
    · have hbeq : (key == name) = false := beq_false_of_ne hkey
      simp only [NameTable.insertEntry, hbeq, Bool.false_eq_true, ↓reduceIte, NameTable.get?_cons]
      by_cases h : other = key
      · subst h
        rw [if_pos rfl, if_pos rfl, if_neg hkey]
      · rw [if_neg h, if_neg h, ih]

namespace Heap

variable {heap later last : Heap}

/-- The value that this very scope gives a name. -/
def binding? (heap : Heap) (id : Nat) (name : String) : Option Value :=
  (heap.scope id).bindings.get? name

theorem scope_addScope_of_ne (heap : Heap) (outer : Option Nat) {id : Nat}
    (hid : id ≠ heap.scopes.size) : (heap.addScope outer).1.scope id = heap.scope id := by
  simp [scope, addScope, Array.getElem?_push, hid]

theorem scope_addScope_new (heap : Heap) (outer : Option Nat) :
    (heap.addScope outer).1.scope heap.scopes.size = { enclosing := outer } := by
  simp [scope, addScope]

theorem scope_of_size_le {id : Nat} (hid : heap.scopes.size ≤ id) : heap.scope id = {} := by
  simp [scope, hid]

theorem binding?_of_size_le {id : Nat} (hid : heap.scopes.size ≤ id) (name : String) :
    heap.binding? id name = none := by
  rw [binding?, scope_of_size_le hid]
  rfl

theorem binding?_addScope (heap : Heap) (outer : Option Nat) (id : Nat) (name : String) :
    (heap.addScope outer).1.binding? id name = heap.binding? id name := by
  by_cases hid : id = heap.scopes.size
  · subst hid
    rw [binding?, binding?, scope_addScope_new, scope_of_size_le (Nat.le_refl _)]
  · rw [binding?, binding?, scope_addScope_of_ne heap outer hid]

theorem binding?_withGlobalScope (id : Nat) (x : String) :
    withGlobalScope.binding? id x = none := by
  rw [withGlobalScope, binding?_addScope]
  rfl

theorem scope_define_self {id : Nat} (hid : id < heap.scopes.size) (name : String) (value : Value) :
    (heap.define id name value).scope id =
      { heap.scope id with bindings := (heap.scope id).bindings.insert name value } := by
  simp [scope, define, Array.getElem_modify, hid]

theorem scope_define_of_ne {id other : Nat} (h : other ≠ id) (name : String) (value : Value) :
    (heap.define id name value).scope other = heap.scope other := by
  simp [scope, define, Array.getElem?_modify, Ne.symm h]

theorem enclosing_define (heap : Heap) (id other : Nat) (name : String) (value : Value) :
    ((heap.define id name value).scope other).enclosing = (heap.scope other).enclosing := by
  simp only [scope, define, Array.getElem?_modify]
  split
  · cases heap.scopes[other]? <;> rfl
  · rfl

theorem binding?_define_self {id : Nat} (hid : id < heap.scopes.size) (name : String)
    (value : Value) : (heap.define id name value).binding? id name = some value := by
  rw [binding?, scope_define_self hid, NameTable.get?_insert, if_pos rfl]

theorem binding?_define_of_ne (heap : Heap) (id other : Nat) {name x : String} (value : Value)
    (hx : x ≠ name) : (heap.define id name value).binding? other x = heap.binding? other x := by
  by_cases hid : other = id
  · subst hid
    by_cases hlt : other < heap.scopes.size
    · rw [binding?, scope_define_self hlt, NameTable.get?_insert, if_neg hx, binding?]
    · simp [binding?, scope, define, hlt]
  · rw [binding?, scope_define_of_ne hid, binding?]

theorem binding?_define_cases {id other : Nat} {name x : String} {value v : Value}
    (h : (heap.define id name value).binding? other x = some v) :
    v = value ∨ heap.binding? other x = some v := by
  by_cases hx : x = name
  · subst hx
    by_cases hid : other = id
    · subst hid
      by_cases hlt : other < heap.scopes.size
      · rw [binding?_define_self hlt] at h
        exact .inl (Option.some.inj h).symm
      · right
        simpa [binding?, scope, define, hlt] using h
    · right
      rwa [binding?, scope_define_of_ne hid] at h
  · right
    rwa [binding?_define_of_ne heap id other value hx] at h

theorem lt_size_of_binding {id : Nat} {x : String} (h : (heap.binding? id x).isSome) :
    id < heap.scopes.size := by
  by_cases hid : id < heap.scopes.size
  · exact hid
  · rw [binding?_of_size_le (Nat.not_lt.mp hid)] at h
    simp at h

theorem binding_of_ownerWithin {x : String} {count id owner : Nat}
    (h : heap.ownerWithin x count id = some owner) : (heap.binding? owner x).isSome := by
  induction count generalizing id with
  | zero => simp [ownerWithin] at h
  | succ count ih =>
    simp only [ownerWithin] at h
    split at h
    · rename_i hcontains
      obtain rfl : id = owner := Option.some.inj h
      exact hcontains
    · cases houter : (heap.scope id).enclosing with
      | none => simp [houter] at h
      | some outer =>
        rw [houter] at h
        exact ih h

@[simp] theorem size_define (heap : Heap) (id : Nat) (name : String) (value : Value) :
    (heap.define id name value).scopes.size = heap.scopes.size := by
  simp [define]

theorem scope_defineAll_of_ne {id other : Nat} (h : other ≠ id) (names : List String)
    (values : List Value) : (heap.defineAll id names values).scope other = heap.scope other := by
  induction names generalizing heap values with
  | nil => rfl
  | cons name names ih =>
    cases values with
    | nil => exact (ih []).trans (scope_define_of_ne h name .none)
    | cons value values => exact (ih values).trans (scope_define_of_ne h name value)

theorem enclosing_defineAll (heap : Heap) (id other : Nat) (names : List String)
    (values : List Value) :
    ((heap.defineAll id names values).scope other).enclosing = (heap.scope other).enclosing := by
  induction names generalizing heap values with
  | nil => rfl
  | cons name names ih =>
    cases values with
    | nil => exact (ih _ []).trans (enclosing_define heap id other name .none)
    | cons value values => exact (ih _ values).trans (enclosing_define heap id other name value)

theorem binding?_defineAll_of_not_mem (heap : Heap) (id other : Nat) {names : List String}
    (values : List Value) {x : String} (hx : x ∉ names) :
    (heap.defineAll id names values).binding? other x = heap.binding? other x := by
  induction names generalizing heap values with
  | nil => rfl
  | cons name names ih =>
    have hne : x ≠ name := fun h => hx (h ▸ List.mem_cons_self)
    have hrest : x ∉ names := fun h => hx (List.mem_cons_of_mem name h)
    cases values with
    | nil => exact (ih _ [] hrest).trans (binding?_define_of_ne heap id other .none hne)
    | cons value values =>
      exact (ih _ values hrest).trans (binding?_define_of_ne heap id other value hne)

theorem binding?_defineAll {id : Nat} (hid : id < heap.scopes.size) {names : List String}
    (hnodup : names.Nodup) (values : List Value) {i : Nat} {name : String}
    (hi : names[i]? = some name) :
    (heap.defineAll id names values).binding? id name = some (values[i]?.getD .none) := by
  induction names generalizing heap values i with
  | nil => simp at hi
  | cons first names ih =>
    obtain ⟨hfirst, hrest⟩ := List.nodup_cons.mp hnodup
    cases i with
    | zero =>
      obtain rfl : first = name := by simpa using hi
      cases values with
      | nil =>
        exact (binding?_defineAll_of_not_mem _ id id [] hfirst).trans
          (binding?_define_self hid first .none)
      | cons value values =>
        exact (binding?_defineAll_of_not_mem _ id id values hfirst).trans
          (binding?_define_self hid first value)
    | succ i =>
      have hi' : names[i]? = some name := by simpa using hi
      cases values with
      | nil =>
        have hid' : id < (heap.define id first .none).scopes.size := by simpa using hid
        have hnone := ih hid' hrest [] hi'
        simpa [defineAll] using hnone
      | cons value values =>
        have hid' : id < (heap.define id first value).scopes.size := by simpa using hid
        have hvalue := ih hid' hrest values hi'
        simpa [defineAll] using hvalue

/-- `later` has all that `heap` has, apart from the values of names. -/
structure Grows (heap later : Heap) : Prop where
  size_le : heap.scopes.size ≤ later.scopes.size
  closures_le : heap.closures.size ≤ later.closures.size
  enclosing : ∀ id < heap.scopes.size, (later.scope id).enclosing = (heap.scope id).enclosing
  closure : ∀ ref closure, heap.closure? ref = some closure → later.closure? ref = some closure

theorem Grows.refl (heap : Heap) : heap.Grows heap :=
  ⟨Nat.le_refl _, Nat.le_refl _, fun _ _ => rfl, fun _ _ h => h⟩

theorem Grows.trans (h : heap.Grows later) (h' : later.Grows last) : heap.Grows last where
  size_le := Nat.le_trans h.size_le h'.size_le
  closures_le := Nat.le_trans h.closures_le h'.closures_le
  enclosing id hid := by
    rw [h'.enclosing id (Nat.lt_of_lt_of_le hid h.size_le), h.enclosing id hid]
  closure ref closure hclosure := h'.closure ref closure (h.closure ref closure hclosure)

theorem grows_addScope (heap : Heap) (outer : Option Nat) :
    heap.Grows (heap.addScope outer).1 where
  size_le := by simp [addScope]
  closures_le := Nat.le_refl _
  enclosing id hid := by rw [scope_addScope_of_ne heap outer (Nat.ne_of_lt hid)]
  closure _ _ h := h

theorem grows_addClosure (heap : Heap) (closure : Closure) :
    heap.Grows (heap.addClosure closure).1 where
  size_le := Nat.le_refl _
  closures_le := by simp [addClosure]
  enclosing _ _ := rfl
  closure ref old hold := by
    have hlt : ref.id < heap.closures.size := (Array.getElem?_eq_some_iff.mp hold).1
    simpa [closure?, addClosure, Array.getElem?_push, Nat.ne_of_lt hlt] using hold

theorem grows_define (heap : Heap) (id : Nat) (name : String) (value : Value) :
    heap.Grows (heap.define id name value) where
  size_le := Nat.le_of_eq (size_define heap id name value).symm
  closures_le := Nat.le_refl _
  enclosing other _ := enclosing_define heap id other name value
  closure _ _ h := h

theorem grows_defineAll (heap : Heap) (id : Nat) (names : List String) (values : List Value) :
    heap.Grows (heap.defineAll id names values) := by
  induction names generalizing heap values with
  | nil => exact Grows.refl heap
  | cons name names ih =>
    cases values with
    | nil => exact (grows_define heap id name .none).trans (ih _ [])
    | cons value values => exact (grows_define heap id name value).trans (ih _ values)

end Heap

end StackScript
