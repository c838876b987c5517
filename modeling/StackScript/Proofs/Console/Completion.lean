import Mathlib.Data.List.TakeWhile
import StackScript.Console.Completion
import StackScript.Proofs.Source.Places

set_option autoImplicit false

/-!
# Completed words

Main statement: `completion_yields_words`. Where the last separator before the cursor is a character
of one byte, or there is none, each word that is offered is what stands before the cursor after its
replacement has been added. After a wider separator nothing is found, not even an empty list.
-/
namespace StackScript.Console

theorem textBefore?_append (before after : List Char) :
    textBefore? (Source.byteLength before) (before ++ after) = some before := by
  induction before with
  | nil => rw [Source.byteLength, textBefore?]
  | cons c before ih =>
    obtain ⟨position, hposition⟩ : ∃ position,
        Source.byteLength (c :: before) = position + 1 :=
      Nat.exists_eq_add_one.mpr (Nat.add_pos_left c.utf8Size_pos _)
    have hrest : position + 1 - c.utf8Size = Source.byteLength before := by
      rw [← hposition, Source.byteLength, Nat.add_sub_cancel_left]
    have hfits : c.utf8Size ≤ position + 1 := by
      rw [← hposition, Source.byteLength]
      exact Nat.le_add_right _ _
    rw [hposition, List.cons_append, textBefore?, if_pos hfits, hrest, ih, Option.map_some]

/-- The last word of a text, empty behind a separator. -/
def lastWord (text : List Char) : List Char := (text.reverse.takeWhile isCompletable).reverse

def lastSeparator? (text : List Char) : Option Char :=
  text.reverse.find? fun c => !isCompletable c

/-- The last separator, if there is one, is a character of one byte. -/
def endsNarrowly (text : List Char) : Bool :=
  (lastSeparator? text).all fun separator => separator.utf8Size == 1

theorem endsNarrowly_iff {text : List Char} :
    endsNarrowly text = true ↔ ∀ separator ∈ lastSeparator? text, separator.utf8Size = 1 := by
  cases h : lastSeparator? text <;> simp [endsNarrowly, h]

theorem lastWord_suffix (text : List Char) : lastWord text <:+ text := by
  rw [← List.reverse_prefix, lastWord, List.reverse_reverse]
  exact List.takeWhile_prefix _

theorem lastWord?_eq (text : List Char) :
    lastWord? text = if endsNarrowly text then some (lastWord text) else none := by
  have hseparator : lastSeparator? text = (text.reverse.dropWhile isCompletable).head? :=
    List.find?_not_eq_head?_dropWhile ..
  rw [endsNarrowly, hseparator, lastWord?]
  cases text.reverse.dropWhile isCompletable with
  | nil => simp [lastWord]
  | cons separator rest => simp [lastWord]

theorem complete?_eq (before after : String) :
    complete? (before ++ after) before.utf8ByteSize =
      if endsNarrowly before.toList then
        let word := lastWord before.toList
        some {
          start := before.utf8ByteSize
          candidates := if word.isEmpty then [] else candidates word
          hint := if before.length < (before ++ after).length then none else hint? word }
      else none := by
  have htext : textBefore? before.utf8ByteSize (before ++ after).toList = some before.toList := by
    rw [String.toList_append, ← Source.byteLength_toList, textBefore?_append]
  rw [complete?, htext, Option.bind_eq_bind, Option.bind_some, lastWord?_eq]
  split <;> rfl

theorem mem_candidates {word : List Char} {candidate : Candidate} :
    candidate ∈ candidates word ↔ candidate.display ∈ completionWords ∧
      candidate.display.toList = word ++ candidate.replacement.toList := by
  constructor
  · intro h
    obtain ⟨w, hw, rfl⟩ := List.mem_map.mp h
    obtain ⟨hmem, hprefix⟩ := List.mem_filter.mp hw
    obtain ⟨rest, hrest⟩ := List.isPrefixOf_iff_prefix.mp hprefix
    refine ⟨hmem, ?_⟩
    simp [← hrest]
  · rintro ⟨hmem, hdisplay⟩
    refine List.mem_map.mpr ⟨candidate.display, List.mem_filter.mpr ⟨hmem, ?_⟩, ?_⟩
    · rw [List.isPrefixOf_iff_prefix, hdisplay]
      exact List.prefix_append _ _
    · simp [hdisplay]

theorem exists_append_display {before : String} {candidate : Candidate}
    (h : candidate ∈ candidates (lastWord before.toList)) :
    ∃ front, before ++ candidate.replacement = front ++ candidate.display := by
  obtain ⟨front, hfront⟩ := lastWord_suffix before.toList
  refine ⟨String.ofList front, String.toList_inj.mp ?_⟩
  rw [String.toList_append, String.toList_append, String.toList_ofList, (mem_candidates.mp h).2,
    ← List.append_assoc, hfront]

/-- Whatever stands behind the cursor, a completion is found just if the last separator before it is
one byte wide, or there is none. The completion starts at the cursor, and with its replacement added
the text before the cursor ends with the word that a candidate shows. Every known word that goes on
from the word at the cursor is among the candidates. -/
theorem completion_yields_words (before after : String) :
    ((complete? (before ++ after) before.utf8ByteSize).isSome = true ↔
      ∀ separator ∈ lastSeparator? before.toList, separator.utf8Size = 1) ∧
    ∀ completion ∈ complete? (before ++ after) before.utf8ByteSize,
      completion.start = before.utf8ByteSize ∧
      (∀ candidate ∈ completion.candidates,
        ∃ front, before ++ candidate.replacement = front ++ candidate.display) ∧
      ∀ w ∈ completionWords, lastWord before.toList ≠ [] → lastWord before.toList <+: w.toList →
        ∃ candidate ∈ completion.candidates, candidate.display = w := by
  rw [← endsNarrowly_iff, complete?_eq]
  cases endsNarrowly before.toList with
  | false => exact ⟨Iff.rfl, nofun⟩
  | true =>
    refine ⟨Iff.rfl, fun completion hcompletion => ?_⟩
    obtain rfl := Option.some.inj hcompletion
    refine ⟨rfl, fun candidate hcandidate => ?_, fun w hw hsome hword => ?_⟩
    · split at hcandidate
      · cases hcandidate
      · exact exists_append_display hcandidate
    · obtain ⟨rest, hrest⟩ := hword
      refine ⟨⟨w, String.ofList rest⟩, ?_, rfl⟩
      rw [if_neg (by simpa using hsome), mem_candidates, String.toList_ofList]
      exact ⟨hw, hrest.symm⟩

/-- Behind a blank the word is found, whatever else stands before it. -/
theorem completion_yields_words_behind_blank :
    (∀ separator ∈ lastSeparator? "→ le".toList, separator.utf8Size = 1) ∧
      ∃ completion, complete? "→ le)" 6 = some completion ∧ completion.start = 6 ∧
        ∃ candidate ∈ completion.candidates, candidate.display = "let" ∧
          ∃ front, "→ le" ++ candidate.replacement = front ++ "let" := by
  have hblank : lastSeparator? "→ le".toList = some ' ' := by decide +kernel
  have hnarrow : ∀ separator ∈ lastSeparator? "→ le".toList, separator.utf8Size = 1 := by
    rintro separator hseparator
    rw [Option.some.inj (hseparator.symm.trans hblank)]
    rfl
  obtain ⟨hfound, hall⟩ := completion_yields_words "→ le" ")"
  obtain ⟨completion, hcompletion⟩ := Option.isSome_iff_exists.mp (hfound.mpr hnarrow)
  obtain ⟨hstart, hshown, hoffered⟩ := hall completion hcompletion
  obtain ⟨candidate, hmem, hlet⟩ :=
    hoffered "let" (by decide +kernel) (by decide +kernel) (by decide +kernel)
  exact ⟨hnarrow, completion, hcompletion, hstart, candidate, hmem, hlet,
    hlet ▸ hshown candidate hmem⟩

/-- The word behind an arrow is not found, as it is looked for one byte behind the place where the
arrow begins. -/
theorem wide_separator_stops_completion :
    Source.IsBoundary "→le".toList 5 ∧ complete? "→le" 5 = none :=
  ⟨⟨"→le".toList, [], by decide, by decide⟩,
    Option.isNone_iff_eq_none.mp (by decide +kernel)⟩

end StackScript.Console
