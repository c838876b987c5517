import StackScript.Value.Basic

set_option autoImplicit false

/-!
# Objects

An object keeps its entries in the order in which their keys first came. Inserting under a key that
equals one already there replaces the value only; a key that differs from itself is always added and
never found.
-/
namespace StackScript

abbrev Entries := List (Value × Value)

namespace Entries

def insert (key value : Value) : Entries → Entries
  | [] => [(key, value)]
  | (other, old) :: rest =>
    if other == key then (other, value) :: rest else (other, old) :: insert key value rest

def ofPairs (pairs : List (Value × Value)) : Entries :=
  pairs.foldl (fun entries pair => insert pair.1 pair.2 entries) []

def get? (entries : Entries) (key : Value) : Option Value :=
  (entries.find? fun entry => entry.1 == key).map (·.2)

def keys (entries : Entries) : List Value := entries.map (·.1)

end Entries

end StackScript
