import Mathlib.Data.List.DropRight
import Mathlib.Data.Prod.Lex
import Mathlib.Order.Monotone.Basic
import StackScript.Proofs.Source.Places

set_option autoImplicit false

/-!
# Locations of offsets

Main statement: `locations_identify_offsets`. Walking over one more character leads to a later
location, whether the character ends its line or not. The offsets between the characters of a text
therefore have different locations, in the order of the offsets, and the location of each counts the
line breaks before it and the characters behind the last of them.
-/
namespace StackScript

namespace Source

namespace Location

/-- Lines count first, and columns within a line. -/
def key (here : Location) : ℕ ×ₗ ℕ := toLex (here.line, here.column)

theorem key_injective : Function.Injective key := by
  rintro ⟨line, column⟩ ⟨line', column'⟩ h
  obtain ⟨rfl, rfl⟩ := Prod.mk.inj (toLex_inj.mp h)
  rfl

instance : LinearOrder Location := LinearOrder.lift' key key_injective

theorem lt_iff {a b : Location} :
    a < b ↔ a.line < b.line ∨ a.line = b.line ∧ a.column < b.column :=
  Prod.Lex.toLex_lt_toLex

theorem lt_after (here : Location) (c : Char) : here < here.after c := by
  rw [lt_iff, after]
  split
  · exact .inl (Nat.lt_succ_self _)
  · exact .inr ⟨rfl, Nat.lt_succ_self _⟩

theorem le_foldl_after (here : Location) (passed : List Char) : here ≤ passed.foldl after here := by
  induction passed generalizing here with
  | nil => exact le_refl here
  | cons c passed ih => exact (lt_after here c).le.trans (ih (here.after c))

theorem lt_foldl_after (here : Location) {passed : List Char} (h : passed ≠ []) :
    here < passed.foldl after here := by
  obtain ⟨c, rest, rfl⟩ := List.exists_cons_of_ne_nil h
  exact (lt_after here c).trans_le (le_foldl_after (here.after c) rest)

/-- The line counts the line breaks that were passed, the column what came behind the last one. -/
theorem foldl_after_first (passed : List Char) : passed.foldl after first =
    ⟨1 + passed.count '\n', 1 + (passed.rtakeWhile (· != '\n')).length⟩ := by
  -- from the back, since the last character decides whether the column starts again
  induction passed using List.reverseRecOn with
  | nil => rfl
  | append_singleton passed c ih =>
    rw [List.foldl_append, ih, List.foldl_cons, List.foldl_nil, after, List.count_append,
      List.rtakeWhile_concat]
    by_cases hbreak : c = '\n' <;> simp [hbreak, Nat.add_assoc]

end Location

theorem exists_append_of_byteLength_lt {before after before' after' : List Char}
    (hsplit : before ++ after = before' ++ after') (h : byteLength before < byteLength before') :
    ∃ between, between ≠ [] ∧ before' = before ++ between := by
  obtain ⟨between, rfl, -⟩ | ⟨between, rfl, -⟩ := List.append_eq_append_iff.mp hsplit
  · refine ⟨between, ?_, rfl⟩
    rintro rfl
    simp at h
  · rw [byteLength_append] at h
    omega

theorem locate_strictMonoOn (here : Location) (text : List Char) :
    StrictMonoOn (fun offset => locate here offset text) {offset | IsBoundary text offset} := by
  rintro _ ⟨before, after, rfl, rfl⟩ _ ⟨before', after', hsplit, rfl⟩ hlt
  obtain ⟨between, hsome, rfl⟩ := exists_append_of_byteLength_lt hsplit hlt
  have hlater : locate here (byteLength (before ++ between)) (before ++ after) =
      between.foldl Location.after (before.foldl Location.after here) := by
    rw [hsplit, locate_append, List.foldl_append]
  simp only [locate_append, hlater]
  exact Location.lt_foldl_after _ hsome

theorem locate_of_byteLength_le (here : Location) {text : List Char} {offset : Nat}
    (h : byteLength text ≤ offset) : locate here offset text = text.foldl Location.after here := by
  induction text generalizing here offset with
  | nil => rfl
  | cons c rest ih =>
    rw [byteLength] at h
    have hpos := c.utf8Size_pos
    have hoffset : ¬(offset == 0) = true := by
      rw [beq_iff_eq]
      omega
    rw [locate, if_neg hoffset, ih _ (by omega), List.foldl_cons]

end Source

namespace Span

/-- Spans that start between characters of a text, or at its end, have locations in the order of
their starts. The line is one more than the number of line breaks before the start, the column one
more than the number of characters behind the last of them. Spans that start behind the text have
the location of its end. -/
theorem locations_identify_offsets (source : String) :
    (∀ a b : Span, Source.IsBoundary source.toList a.start →
      Source.IsBoundary source.toList b.start →
      (a.location source < b.location source ↔ a.start < b.start)) ∧
    (∀ (a : Span) (before after : List Char), source.toList = before ++ after →
      a.start = Source.byteLength before →
      (a.location source).line = 1 + before.count '\n' ∧
      (a.location source).column = 1 + (before.rtakeWhile (· != '\n')).length) ∧
    ∀ a b : Span, b.start = source.utf8ByteSize → b.start ≤ a.start →
      a.location source = b.location source := by
  refine ⟨fun a b ha hb => ?_, fun a before after hsplit hstart => ?_, fun a b hend hbehind => ?_⟩
  · exact (Source.locate_strictMonoOn .first source.toList).lt_iff_lt ha hb
  · have hlocation : a.location source = before.foldl Source.Location.after .first := by
      rw [Span.location, hsplit, hstart, Source.locate_append]
    rw [hlocation, Source.Location.foldl_after_first]
    exact ⟨rfl, rfl⟩
  · have hlength : Source.byteLength source.toList ≤ b.start := by
      rw [hend, Source.byteLength_toList]
    rw [Span.location, Span.location, Source.locate_of_byteLength_le _ hlength,
      Source.locate_of_byteLength_le _ (hlength.trans hbehind)]

/-- An arrow has three bytes and one column, and an empty line counts as a line. -/
theorem locations_identify_offsets_around_arrow :
    Source.IsBoundary "é\n\n→b".toList 4 ∧ Source.IsBoundary "é\n\n→b".toList 7 ∧
      Span.location ⟨4, 7⟩ "é\n\n→b" < Span.location ⟨7, 8⟩ "é\n\n→b" ∧
      Span.location ⟨7, 8⟩ "é\n\n→b" = ⟨3, 2⟩ ∧
      Span.location ⟨100, 101⟩ "é\n\n→b" = Span.location ⟨8, 8⟩ "é\n\n→b" := by
  have hbefore : Source.IsBoundary "é\n\n→b".toList 4 :=
    ⟨"é\n\n".toList, "→b".toList, by decide +kernel, by decide +kernel⟩
  have hbehind : Source.IsBoundary "é\n\n→b".toList 7 :=
    ⟨"é\n\n→".toList, "b".toList, by decide +kernel, by decide +kernel⟩
  obtain ⟨horder, hcounts, hend⟩ := locations_identify_offsets "é\n\n→b"
  obtain ⟨hline, hcolumn⟩ := hcounts ⟨7, 8⟩ "é\n\n→".toList "b".toList (by decide +kernel)
    (by decide +kernel)
  refine ⟨hbefore, hbehind, (horder ⟨4, 7⟩ ⟨7, 8⟩ hbefore hbehind).mpr (by decide), ?_,
    hend ⟨100, 101⟩ ⟨8, 8⟩ (by decide +kernel) (by decide)⟩
  calc Span.location ⟨7, 8⟩ "é\n\n→b"
      = ⟨1 + "é\n\n→".toList.count '\n',
          1 + ("é\n\n→".toList.rtakeWhile (· != '\n')).length⟩ := by rw [← hline, ← hcolumn]
    _ = ⟨3, 2⟩ := by decide +kernel

end Span

end StackScript
