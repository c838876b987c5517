import StackScript.Diagnostic.Basic

set_option autoImplicit false

/-!
# Spans of a text

A span is only a pair of numbers. It lies in a text if both are offsets at which a character of the
text starts, or its end, and are in order. The location of such a span is the one that is reached by
walking over the characters before it.
-/
namespace StackScript

namespace Source

/-- A character of the text starts at the offset, or the text ends there. -/
def IsBoundary (text : List Char) (offset : Nat) : Prop :=
  ∃ before after, text = before ++ after ∧ byteLength before = offset

theorem isBoundary_zero (text : List Char) : IsBoundary text 0 := ⟨[], text, rfl, rfl⟩

theorem IsBoundary.le {text : List Char} {offset : Nat} (h : IsBoundary text offset) :
    offset ≤ byteLength text := by
  obtain ⟨before, after, rfl, rfl⟩ := h
  rw [byteLength_append]
  exact Nat.le_add_right _ _

theorem size_utf8Encode (text : List Char) : text.utf8Encode.size = byteLength text := by
  induction text with
  | nil => rfl
  | cons c rest ih =>
    rw [List.utf8Encode_cons, ByteArray.size_append, ih, List.utf8Encode_singleton,
      List.size_toByteArray, String.length_utf8EncodeChar, byteLength]

theorem byteLength_toList (source : String) : byteLength source.toList = source.utf8ByteSize := by
  rw [← size_utf8Encode, ← String.toByteArray_ofList, String.ofList_toList, String.size_toByteArray]

theorem locate_append (here : Location) (before after : List Char) :
    locate here (byteLength before) (before ++ after) = before.foldl Location.after here := by
  induction before generalizing here with
  | nil => cases after <;> rfl
  | cons c before ih =>
    have hpos : c.utf8Size + byteLength before ≠ 0 := by
      have := c.utf8Size_pos
      omega
    rw [List.cons_append, locate, byteLength, if_neg (by simpa using hpos),
      Nat.add_sub_cancel_left, ih, List.foldl_cons]

end Source

/-- The span begins and ends between characters of the text. -/
structure Span.LiesIn (span : Span) (source : String) : Prop where
  start_le : span.start ≤ span.stop
  stop_le : span.stop ≤ source.utf8ByteSize
  start : Source.IsBoundary source.toList span.start
  stop : Source.IsBoundary source.toList span.stop

namespace Span

variable {source : String} {a b : Span}

theorem liesIn_of_isBoundary (h : a.start ≤ a.stop) (hstart : Source.IsBoundary source.toList a.start)
    (hstop : Source.IsBoundary source.toList a.stop) : a.LiesIn source :=
  ⟨h, Source.byteLength_toList source ▸ hstop.le, hstart, hstop⟩

theorem liesIn_zero (source : String) : Span.LiesIn ⟨0, 0⟩ source :=
  liesIn_of_isBoundary (Nat.le_refl _) (Source.isBoundary_zero _) (Source.isBoundary_zero _)

theorem liesIn_whole (source : String) : Span.LiesIn ⟨0, source.utf8ByteSize⟩ source :=
  liesIn_of_isBoundary (Nat.zero_le _) (Source.isBoundary_zero _)
    ⟨source.toList, [], (List.append_nil _).symm, Source.byteLength_toList source⟩

theorem LiesIn.merge (ha : a.LiesIn source) (hb : b.LiesIn source) : (a.merge b).LiesIn source := by
  have haOrder := ha.start_le
  refine liesIn_of_isBoundary ?_ ?_ ?_
  · simp only [Span.merge]
    omega
  · obtain h | h := Nat.le_total a.start b.start
    · rw [Span.merge, Nat.min_eq_left h]
      exact ha.start
    · rw [Span.merge, Nat.min_eq_right h]
      exact hb.start
  · obtain h | h := Nat.le_total a.stop b.stop
    · rw [Span.merge, Nat.max_eq_right h]
      exact hb.stop
    · rw [Span.merge, Nat.max_eq_left h]
      exact ha.stop

theorem LiesIn.location_eq (h : a.LiesIn source) : ∃ before after, source.toList = before ++ after ∧
    Source.byteLength before = a.start ∧
    a.location source = before.foldl Source.Location.after .first := by
  obtain ⟨before, after, hsplit, hstart⟩ := h.start
  refine ⟨before, after, hsplit, hstart, ?_⟩
  rw [Span.location, hsplit, ← hstart, Source.locate_append]

end Span

end StackScript
