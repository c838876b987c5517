import Mathlib.Data.List.Induction
import StackScript.Value.Object
import StackScript.Proofs.Value.Equality

set_option autoImplicit false

/-!
# Objects as ordered maps

Main statement: `objects_are_ordered_maps`. An object made from pairs has the keys in the order of
their first occurrence and under each of them the value that came last.

All of it comes from what one insertion does (`Entries.insert_cases`), pair by pair. Which entry is
meant by "the first with an equal key" does not depend on the key that is asked for, since equality
is symmetric and transitive.
-/
namespace StackScript

namespace Entries

/-- An insertion gives its value to the first entry with an equal key and leaves all else as it is,
or it adds an entry at the end if there is none. -/
theorem insert_cases (key value : Value) (entries : Entries) :
    (∃ before other old behind, entries = before ++ (other, old) :: behind ∧
      (∀ entry ∈ before, (entry.1 == key) = false) ∧ (other == key) = true ∧
      insert key value entries = before ++ (other, value) :: behind) ∨
    ((∀ entry ∈ entries, (entry.1 == key) = false) ∧
      insert key value entries = entries ++ [(key, value)]) := by
  induction entries with
  | nil => exact .inr ⟨nofun, rfl⟩
  | cons entry rest ih =>
    obtain ⟨other, old⟩ := entry
    cases hother : other == key with
    | true => exact .inl ⟨[], other, old, rest, rfl, nofun, hother, by simp [insert, hother]⟩
    | false =>
      have hinsert : insert key value ((other, old) :: rest) =
          (other, old) :: insert key value rest := by simp [insert, hother]
      obtain ⟨before, found, replaced, behind, rfl, hbefore, hfound, hrest⟩ | ⟨hnone, hrest⟩ := ih
      · exact .inl ⟨(other, old) :: before, found, replaced, behind, rfl,
          List.forall_mem_cons.mpr ⟨hother, hbefore⟩, hfound, by rw [hinsert, hrest]; rfl⟩
      · exact .inr ⟨List.forall_mem_cons.mpr ⟨hother, hnone⟩, by rw [hinsert, hrest]; rfl⟩

theorem find?_eq_none_of_beq {key k : Value} {entries : Entries}
    (h : ∀ entry ∈ entries, (entry.1 == key) = false) (hkey : (key == k) = true) :
    entries.find? (fun entry => entry.1 == k) = none := by
  refine List.find?_eq_none.mpr fun entry hentry => ?_
  rw [← BEq.congr_right hkey, h entry hentry]
  exact Bool.false_ne_true

section Insertion

variable (key value : Value) (entries : Entries)

theorem keys_insert : (insert key value entries).keys =
    if entries.keys.any (· == key) then entries.keys else entries.keys ++ [key] := by
  obtain ⟨before, other, old, behind, rfl, -, hother, hinsert⟩ | ⟨hnone, hinsert⟩ :=
    insert_cases key value entries
  · simp [hinsert, keys, hother]
  · have hkeys : entries.keys.any (· == key) = false := by
      rw [keys, List.any_map]
      exact List.any_eq_false.mpr fun entry hentry => by simp [hnone entry hentry]
    rw [hinsert, hkeys]
    exact List.map_append

theorem get?_insert (k : Value) : (insert key value entries).get? k =
    if key == k then some value else entries.get? k := by
  obtain ⟨before, other, old, behind, rfl, hbefore, hother, hinsert⟩ | ⟨hnone, hinsert⟩ :=
    insert_cases key value entries
  · have hsame : (other == k) = (key == k) := BEq.congr_left hother
    cases hkey : key == k with
    | false => simp [hinsert, get?, List.find?_append, hsame, hkey]
    | true =>
      have hmissed := find?_eq_none_of_beq hbefore hkey
      simp [hinsert, get?, List.find?_append, hsame, hkey, hmissed]
  · cases hkey : key == k with
    | false => simp [hinsert, get?, List.find?_append, hkey]
    | true =>
      have hmissed := find?_eq_none_of_beq hnone hkey
      simp [hinsert, get?, List.find?_append, hkey, hmissed]

theorem filter_hasNaN_insert : (insert key value entries).filter (·.1.hasNaN) =
    entries.filter (·.1.hasNaN) ++ [(key, value)].filter (·.1.hasNaN) := by
  obtain ⟨before, other, old, behind, rfl, -, hother, hinsert⟩ | ⟨-, hinsert⟩ :=
    insert_cases key value entries
  · have hold : other.hasNaN = false := Value.hasNaN_eq_false_of_beq hother
    have hnew : key.hasNaN = false := Value.hasNaN_eq_false_of_beq (BEq.symm hother)
    simp [hinsert, hold, hnew]
  · rw [hinsert, List.filter_append]

end Insertion

theorem get?_eq_none_of_hasNaN (entries : Entries) {k : Value} (h : k.hasNaN = true) :
    entries.get? k = none := by
  refine Option.map_eq_none_iff.mpr (List.find?_eq_none.mpr fun entry _ hequal => ?_)
  exact Bool.false_ne_true ((Value.hasNaN_eq_false_of_beq (BEq.symm hequal)).symm.trans h)

/-- The keys that equal none before them. -/
def firstOccurrences (keys : List Value) : List Value :=
  (keys.zipIdx.filter fun key => !(keys.take key.2).any (· == key.1)).map (·.1)

theorem firstOccurrences_concat (keys : List Value) (key : Value) :
    firstOccurrences (keys ++ [key]) =
      if keys.any (· == key) then firstOccurrences keys else firstOccurrences keys ++ [key] := by
  have hbefore : (keys.zipIdx.filter fun k => !((keys ++ [key]).take k.2).any (· == k.1)) =
      keys.zipIdx.filter fun k => !(keys.take k.2).any (· == k.1) := by
    refine List.filter_congr fun k hk => ?_
    have hindex : k.2 < keys.length := List.snd_lt_of_mem_zipIdx hk
    rw [List.take_append_of_le_length (by omega)]
  rw [firstOccurrences, List.zipIdx_append, List.filter_append, hbefore, List.map_append]
  cases hany : keys.any (· == key) <;> simp [firstOccurrences, hany]

theorem ofPairs_concat (pairs : List (Value × Value)) (pair : Value × Value) :
    ofPairs (pairs ++ [pair]) = insert pair.1 pair.2 (ofPairs pairs) :=
  List.foldl_append

theorem any_keys_ofPairs (pairs : List (Value × Value)) (k : Value) :
    (ofPairs pairs).keys.any (· == k) = (pairs.map (·.1)).any (· == k) := by
  induction pairs using List.reverseRecOn with
  | nil => rfl
  | append_singleton pairs pair ih =>
    rw [ofPairs_concat, keys_insert, List.map_append, List.any_append, ← ih]
    split
    · rename_i hfound
      obtain ⟨other, hmem, hother⟩ := List.any_eq_true.mp hfound
      cases hkey : pair.1 == k with
      | false => simp [hkey]
      | true =>
        -- the key that was left out is stood in for by the one it equals
        have hthere : (ofPairs pairs).keys.any (· == k) = true :=
          List.any_eq_true.mpr ⟨other, hmem, BEq.trans hother hkey⟩
        rw [hthere, Bool.true_or]
    · simp

theorem keys_ofPairs (pairs : List (Value × Value)) :
    (ofPairs pairs).keys = firstOccurrences (pairs.map (·.1)) := by
  induction pairs using List.reverseRecOn with
  | nil => rfl
  | append_singleton pairs pair ih =>
    rw [ofPairs_concat, keys_insert, any_keys_ofPairs, List.map_append, List.map_singleton,
      firstOccurrences_concat, ih]

theorem pairwise_keys_ofPairs (pairs : List (Value × Value)) :
    (ofPairs pairs).keys.Pairwise fun k l => (k == l) = false := by
  induction pairs using List.reverseRecOn with
  | nil => exact .nil
  | append_singleton pairs pair ih =>
    rw [ofPairs_concat, keys_insert]
    split
    · exact ih
    · rename_i hnone
      refine List.pairwise_append.mpr ⟨ih, List.pairwise_singleton .., ?_⟩
      intro k hk l hl
      rw [List.mem_singleton.mp hl]
      simpa using fun h => hnone (List.any_eq_true.mpr ⟨k, hk, h⟩)

theorem get?_ofPairs (pairs : List (Value × Value)) (k : Value) :
    (ofPairs pairs).get? k = (pairs.reverse.find? fun pair => pair.1 == k).map (·.2) := by
  induction pairs using List.reverseRecOn with
  | nil => rfl
  | append_singleton pairs pair ih =>
    rw [ofPairs_concat, get?_insert, ih, List.reverse_concat, List.find?_cons]
    cases pair.1 == k <;> rfl

theorem filter_hasNaN_ofPairs (pairs : List (Value × Value)) :
    (ofPairs pairs).filter (·.1.hasNaN) = pairs.filter (·.1.hasNaN) := by
  induction pairs using List.reverseRecOn with
  | nil => rfl
  | append_singleton pairs pair ih =>
    rw [ofPairs_concat, filter_hasNaN_insert, ih, List.filter_append]

end Entries

/-- Equality of values is symmetric and transitive, and a value differs from itself just if there is
a float in it that is not a number. The object made from any pairs has keys that differ from each
other, in the order of their first occurrence, and gives for a key the value of the last pair whose
key equals it, if there is one. A key that differs from itself is never found, and the pairs with
such keys are all kept as they are. -/
theorem objects_are_ordered_maps :
    PartialEquivBEq Value ∧ (∀ key : Value, (key == key) = !key.hasNaN) ∧
    ∀ pairs : List (Value × Value),
      (Entries.ofPairs pairs).keys.Pairwise (fun k l => (k == l) = false) ∧
      (Entries.ofPairs pairs).keys = Entries.firstOccurrences (pairs.map (·.1)) ∧
      (∀ key, (Entries.ofPairs pairs).get? key =
        (pairs.reverse.find? fun pair => pair.1 == key).map (·.2)) ∧
      (∀ key, key.hasNaN = true → (Entries.ofPairs pairs).get? key = none) ∧
      (Entries.ofPairs pairs).filter (·.1.hasNaN) = pairs.filter (·.1.hasNaN) :=
  ⟨inferInstance, Value.beq_self_eq, fun pairs => ⟨Entries.pairwise_keys_ofPairs pairs,
    Entries.keys_ofPairs pairs, Entries.get?_ofPairs pairs,
    fun _ => Entries.get?_eq_none_of_hasNaN _, Entries.filter_hasNaN_ofPairs pairs⟩⟩

/-- Both zeros are one key. What is not a number, and an object with that inside, is there as often
as it comes and never found. -/
theorem objects_are_ordered_maps_of_floats :
    let nan := Value.float Decimal.notANumber
    let deep := Value.object [(.string "a", nan)]
    let pairs := [(nan, .int 1), (.float 0.0, .int 2), (deep, .int 3), (.float (-0.0), .int 4),
      (nan, .int 5), (deep, .int 6)]
    deep.hasNaN = true ∧ (Entries.ofPairs pairs).get? deep = none ∧
      (Entries.ofPairs pairs).get? (.float 0.0) = some (.int 4) ∧
      (Entries.ofPairs pairs).keys = [nan, .float 0.0, deep, nan, deep] := by
  intro nan deep pairs
  obtain ⟨-, -, hmaps⟩ := objects_are_ordered_maps
  obtain ⟨-, hkeys, hget, hnever, -⟩ := hmaps pairs
  have hdeep : deep.hasNaN = true := by decide +kernel
  exact ⟨hdeep, hnever deep hdeep, (hget _).trans rfl, hkeys.trans rfl⟩

end StackScript
