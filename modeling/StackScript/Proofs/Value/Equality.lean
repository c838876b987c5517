import Mathlib
import StackScript.Value.Basic

set_option autoImplicit false

/-!
# Equality of values

Main statements: `PartialEquivBEq Value` and `Value.beq_self_eq`. Equality of values is symmetric and
transitive, however deep the objects, because that of floats is. It is reflexive but for the values
with a float inside that is not a number.
-/
namespace StackScript

namespace Value

mutual

theorem beq_comm : (a b : Value) → a.beq b = b.beq a
  | .object entries, b => by
    cases b with
    | object entries' => exact beqEntries_comm entries entries'
    | _ => rfl
  | .none, b | .bool _, b | .int _, b | .float _, b | .char _, b | .string _, b
  | .function _, b => by
    cases b <;> simp [beq, BEq.comm]
termination_by structural a => a

theorem beqEntries_comm : (a b : List (Value × Value)) → beqEntries a b = beqEntries b a
  | [], [] | [], _ :: _ | _ :: _, [] => rfl
  | (k, v) :: a, (l, w) :: b => by
    rw [beqEntries, beqEntries, k.beq_comm l, v.beq_comm w, beqEntries_comm a b]
termination_by structural a => a

end

theorem eq_object_of_beq {entries : List (Value × Value)} {b : Value}
    (h : (Value.object entries).beq b = true) :
    ∃ entries', b = .object entries' ∧ beqEntries entries entries' = true := by
  cases b with
  | object entries' => exact ⟨entries', rfl, h⟩
  | _ => exact absurd h Bool.false_ne_true

mutual

theorem beq_trans : (a b c : Value) → a.beq b = true → b.beq c = true → a.beq c = true
  | .object entries, b, c, h, h' => by
    obtain ⟨entries', rfl, hfirst⟩ := eq_object_of_beq h
    obtain ⟨entries'', rfl, hsecond⟩ := eq_object_of_beq h'
    exact beqEntries_trans entries entries' entries'' hfirst hsecond
  | .float x, b, c, h, h' => by
    -- of the kinds without parts the only one where equal values need not have equal content
    cases b <;> cases c <;> simp only [beq, Bool.false_eq_true] at h h'
    exact BEq.trans h h'
  | .none, b, c, h, h' | .bool _, b, c, h, h' | .int _, b, c, h, h' | .char _, b, c, h, h'
  | .string _, b, c, h, h' | .function _, b, c, h, h' => by
    cases b <;> cases c <;> simp_all [beq]
termination_by structural a => a

theorem beqEntries_trans : (a b c : List (Value × Value)) → beqEntries a b = true →
    beqEntries b c = true → beqEntries a c = true
  | [], [], c, _, h' => h'
  | (k, v) :: a, (l, w) :: b, [], _, h' => absurd h' Bool.false_ne_true
  | (k, v) :: a, (l, w) :: b, (m, x) :: c, h, h' => by
    simp only [beqEntries, Bool.and_eq_true] at h h' ⊢
    exact ⟨⟨k.beq_trans l m h.1.1 h'.1.1, v.beq_trans w x h.1.2 h'.1.2⟩,
      beqEntries_trans a b c h.2 h'.2⟩
  | [], _ :: _, _, h, _ | _ :: _, [], _, h, _ => absurd h Bool.false_ne_true
termination_by structural a => a

end

instance partialEquiv : PartialEquivBEq Value where
  symm {a b} h := (b.beq_comm a).trans h
  trans {a b c} := a.beq_trans b c

mutual

/-- A float that is not a number stands somewhere in the value, in a key or a value of an object at
any depth. -/
def hasNaN : Value → Bool
  | .float x => x.isNaN
  | .object entries => entriesHaveNaN entries
  | _ => false
termination_by structural value => value

def entriesHaveNaN : List (Value × Value) → Bool
  | [] => false
  | (k, v) :: rest => k.hasNaN || v.hasNaN || entriesHaveNaN rest
termination_by structural entries => entries

end

theorem float_beq_self (x : Float) : (x == x) = !x.isNaN := by
  rw [Bool.eq_iff_iff, Float.beq_self_iff, Float.isNaN_eq_decide_eq_nan, Bool.not_eq_true',
    decide_eq_false_iff_not]

mutual

theorem beq_self : (a : Value) → a.beq a = !a.hasNaN
  | .object entries => beqEntries_self entries
  | .float x => float_beq_self x
  | .none => rfl
  | .bool _ | .int _ | .char _ | .string _ | .function _ => beq_self_eq_true _
termination_by structural a => a

theorem beqEntries_self : (entries : List (Value × Value)) →
    beqEntries entries entries = !entriesHaveNaN entries
  | [] => rfl
  | (k, v) :: rest => by
    rw [beqEntries, entriesHaveNaN, k.beq_self, v.beq_self, beqEntries_self rest, Bool.not_or,
      Bool.not_or]
termination_by structural entries => entries

end

theorem beq_self_eq (a : Value) : (a == a) = !a.hasNaN := a.beq_self

theorem hasNaN_eq_false_of_beq {a b : Value} (h : (a == b) = true) : a.hasNaN = false := by
  have hself : (a == a) = true := BEq.trans h (BEq.symm h)
  rwa [a.beq_self_eq, Bool.not_eq_true'] at hself

end Value

end StackScript
