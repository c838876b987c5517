import StackScript.Machine.Operation
import StackScript.Value.Object

set_option autoImplicit false

/-!
# The functions in a value

A value can hold functions, an object also in its keys and values. Operators make no functions, and
the entries of an object bring in none but those put into it.
-/
namespace StackScript

/-- Every function in the value is one of those that `P` allows. -/
inductive Value.All (P : FunctionRef → Prop) : Value → Prop where
  | none : All P .none
  | bool (b : Bool) : All P (.bool b)
  | int (i : Int64) : All P (.int i)
  | float (x : Float) : All P (.float x)
  | char (c : Char) : All P (.char c)
  | string (text : String) : All P (.string text)
  | object {entries : Entries} (keys : ∀ entry ∈ entries, All P entry.1)
      (values : ∀ entry ∈ entries, All P entry.2) : All P (.object entries)
  | function {ref : FunctionRef} (h : P ref) : All P (.function ref)

variable {P Q : FunctionRef → Prop}

theorem Value.All.mono {value : Value} (h : value.All P) (hPQ : ∀ ref, P ref → Q ref) :
    value.All Q := by
  induction h with
  | none => exact .none
  | bool b => exact .bool b
  | int i => exact .int i
  | float x => exact .float x
  | char c => exact .char c
  | string text => exact .string text
  | object _ _ hkeys hvalues => exact .object hkeys hvalues
  | function h => exact .function (hPQ _ h)

theorem Value.all_of_forall (h : ∀ ref, P ref) : (value : Value) → value.All P
  | .none => .none
  | .bool b => .bool b
  | .int i => .int i
  | .float x => .float x
  | .char c => .char c
  | .string text => .string text
  | .object entries =>
    .object (fun entry _ => Value.all_of_forall h entry.1) fun entry _ =>
      Value.all_of_forall h entry.2
  | .function ref => .function (h ref)
decreasing_by
  all_goals
    have hlt := List.sizeOf_lt_of_mem ‹entry ∈ entries›
    obtain ⟨key, value⟩ := entry
    simp only [Value.object.sizeOf_spec, Prod.mk.sizeOf_spec] at hlt ⊢
    omega

theorem Entries.mem_insert {key value : Value} {entries : Entries} {entry : Value × Value}
    (h : entry ∈ Entries.insert key value entries) :
    (entry.1 = key ∨ ∃ old ∈ entries, entry.1 = old.1) ∧
      (entry.2 = value ∨ ∃ old ∈ entries, entry.2 = old.2) := by
  induction entries with
  | nil =>
    obtain rfl : entry = (key, value) := by simpa [Entries.insert] using h
    exact ⟨.inl rfl, .inl rfl⟩
  | cons first rest ih =>
    obtain ⟨other, old⟩ := first
    rw [Entries.insert] at h
    split at h
    · obtain rfl | hrest := List.mem_cons.mp h
      · exact ⟨.inr ⟨_, List.mem_cons_self, rfl⟩, .inl rfl⟩
      · have hmem := List.mem_cons_of_mem (other, old) hrest
        exact ⟨.inr ⟨entry, hmem, rfl⟩, .inr ⟨entry, hmem, rfl⟩⟩
    · obtain rfl | hrest := List.mem_cons.mp h
      · exact ⟨.inr ⟨_, List.mem_cons_self, rfl⟩, .inr ⟨_, List.mem_cons_self, rfl⟩⟩
      · obtain ⟨hkey, hvalue⟩ := ih hrest
        exact ⟨hkey.imp_right fun ⟨e, he, heq⟩ => ⟨e, List.mem_cons_of_mem _ he, heq⟩,
          hvalue.imp_right fun ⟨e, he, heq⟩ => ⟨e, List.mem_cons_of_mem _ he, heq⟩⟩

theorem Value.All.entries {entries : Entries} (h : (Value.object entries).All P) :
    (∀ entry ∈ entries, entry.1.All P) ∧ ∀ entry ∈ entries, entry.2.All P := by
  cases h with
  | object hkeys hvalues => exact ⟨hkeys, hvalues⟩

theorem Value.All.insert {key value : Value} {entries : Entries} (hkey : key.All P)
    (hvalue : value.All P) (h : (Value.object entries).All P) :
    (Value.object (Entries.insert key value entries)).All P := by
  obtain ⟨hkeys, hvalues⟩ := h.entries
  refine .object (fun entry he => ?_) fun entry he => ?_
  · obtain hnew | ⟨old, hold, heq⟩ := (Entries.mem_insert he).1
    · exact hnew ▸ hkey
    · exact heq ▸ hkeys old hold
  · obtain hnew | ⟨old, hold, heq⟩ := (Entries.mem_insert he).2
    · exact hnew ▸ hvalue
    · exact heq ▸ hvalues old hold

theorem Value.All.ofPairs {pairs : List (Value × Value)} (hkeys : ∀ pair ∈ pairs, pair.1.All P)
    (hvalues : ∀ pair ∈ pairs, pair.2.All P) :
    (Value.object (Entries.ofPairs pairs)).All P := by
  have hfold : ∀ entries, (Value.object entries).All P → (Value.object
      (pairs.foldl (fun entries pair => Entries.insert pair.1 pair.2 entries) entries)).All P := by
    induction pairs with
    | nil => exact fun _ h => h
    | cons pair rest ih =>
      intro entries hentries
      have hkey := hkeys pair List.mem_cons_self
      have hvalue := hvalues pair List.mem_cons_self
      exact ih (fun p hp => hkeys p (List.mem_cons_of_mem _ hp))
        (fun p hp => hvalues p (List.mem_cons_of_mem _ hp)) _ (hkey.insert hvalue hentries)
  exact hfold [] (.object (by simp) (by simp))

theorem Value.All.get? {entries : Entries} (h : (Value.object entries).All P) (key : Value) :
    ((Entries.get? entries key).getD .none).All P := by
  have hvalues := h.entries.2
  cases hfind : entries.find? fun entry => entry.1 == key with
  | none => simpa [Entries.get?, hfind] using Value.All.none
  | some entry => simpa [Entries.get?, hfind] using hvalues entry (List.mem_of_find?_eq_some hfind)

open Operation

theorem exists_of_bind_eq_ok {ε α β : Type} {x : Except ε α} {f : α → Except ε β} {b : β}
    (h : (x >>= f) = .ok b) : ∃ a, x = .ok a ∧ f a = .ok b := by
  cases x with
  | error error => cases h
  | ok a => exact ⟨a, rfl, h⟩

theorem all_arithmetic {op : Float → Float → Float} {a b value : Value}
    (h : arithmetic op a b = .ok value) : value.All P := by
  obtain ⟨x, _, h⟩ := exists_of_bind_eq_ok h
  obtain ⟨y, _, h⟩ := exists_of_bind_eq_ok h
  cases h
  exact .float _

theorem all_comparison {op : Float → Float → Bool} {a b value : Value}
    (h : comparison op a b = .ok value) : value.All P := by
  obtain ⟨x, _, h⟩ := exists_of_bind_eq_ok h
  obtain ⟨y, _, h⟩ := exists_of_bind_eq_ok h
  cases h
  exact .bool _

theorem all_bitwise {op : Int64 → Int64 → Int64} {a b value : Value}
    (h : bitwise op a b = .ok value) : value.All P := by
  obtain ⟨x, _, h⟩ := exists_of_bind_eq_ok h
  obtain ⟨y, _, h⟩ := exists_of_bind_eq_ok h
  cases h
  exact .int _

theorem all_logical {op : Bool → Bool → Bool} {a b value : Value}
    (h : logical op a b = .ok value) : value.All P := by
  obtain ⟨x, _, h⟩ := exists_of_bind_eq_ok h
  obtain ⟨y, _, h⟩ := exists_of_bind_eq_ok h
  cases h
  exact .bool _

theorem all_integerDivision {a b value : Value} (h : integerDivision a b = .ok value) :
    value.All P := by
  obtain ⟨x, _, h⟩ := exists_of_bind_eq_ok h
  obtain ⟨y, _, h⟩ := exists_of_bind_eq_ok h
  dsimp only at h
  split at h
  · obtain ⟨_, hthrow, _⟩ := exists_of_bind_eq_ok h
    cases hthrow
  · obtain ⟨quotient, _, h⟩ := exists_of_bind_eq_ok h
    cases h
    exact .int _

theorem all_binary {opcode : Opcode} {f : Value → Value → Except CoercionError Value}
    (hf : opcode.binary? = some f) {a b value : Value} (h : f a b = .ok value) : value.All P := by
  cases opcode <;> cases hf
  case add | sub | mul | div | mod | pow => exact all_arithmetic h
  case idiv => exact all_integerDivision h
  case concat => cases h; exact .string _
  case band | bor | bxor | bshl | bshr => exact all_bitwise h
  case and | or => exact all_logical h
  case eq => cases h; exact .bool _
  case lt | lte => exact all_comparison h

theorem all_unary {opcode : Opcode} {f : Value → Except CoercionError Value}
    (hf : opcode.unary? = some f) {a value : Value} (h : f a = .ok value) : value.All P := by
  cases opcode <;> cases hf <;> obtain ⟨x, _, h⟩ := exists_of_bind_eq_ok h <;> cases h
  case unm => exact .float _
  case bnot => exact .int _
  case not => exact .bool _

end StackScript
