set_option autoImplicit false

/-!
# Tables of names

A table gives some names a value. Giving a name a new value keeps its place in the table, so a name
occurs at most once.
-/
namespace StackScript

structure NameTable (α : Type) where
  entries : List (String × α) := []

namespace NameTable

variable {α : Type}

def empty : NameTable α := {}

def get? (table : NameTable α) (name : String) : Option α := table.entries.lookup name

def contains (table : NameTable α) (name : String) : Bool := (table.get? name).isSome

def insertEntry (name : String) (value : α) : List (String × α) → List (String × α)
  | [] => [(name, value)]
  | (other, old) :: rest =>
    if other == name then (name, value) :: rest else (other, old) :: insertEntry name value rest

def insert (table : NameTable α) (name : String) (value : α) : NameTable α :=
  ⟨insertEntry name value table.entries⟩

/-- The table of a list of entries, the last one of a name being the one that counts. -/
def ofList (entries : List (String × α)) : NameTable α :=
  entries.foldl (fun table entry => table.insert entry.1 entry.2) empty

def sorted (table : NameTable α) : List (String × α) :=
  table.entries.mergeSort fun a b => !decide (b.1 < a.1)

def names (table : NameTable α) : List String := table.sorted.map (·.1)

end NameTable

end StackScript
