import Mathlib.Tactic.SplitIfs
import StackScript.Console.Highlight

set_option autoImplicit false

/-!
# Highlighting adds colour only

Main statement: `highlighting_adds_colour_only`. Without the control sequences that select styles, a
highlighted line is the line itself, unless it had control characters of its own.
-/
namespace StackScript

namespace Text

/-- What is behind the control sequence at the front of a text that selects a style. -/
def behindSequence? : List Char → Option (List Char)
  | '\x1b' :: '[' :: rest =>
    match rest.dropWhile Char.isDigit with
    | 'm' :: behind => some behind
    | _ => none
  | _ => none

theorem length_lt_of_behindSequence? {text behind : List Char}
    (h : behindSequence? text = some behind) : behind.length < text.length := by
  unfold behindSequence? at h
  split at h
  · rename_i rest
    split at h
    · rename_i hdigits
      have hle := (List.dropWhile_suffix Char.isDigit (l := rest)).length_le
      rw [hdigits, Option.some.inj h] at hle
      simp only [List.length_cons] at hle ⊢
      omega
    · cases h
  · cases h

def unstyled : List Char → List Char
  | [] => []
  | c :: rest =>
    match _h : behindSequence? (c :: rest) with
    | some behind => unstyled behind
    | none => c :: unstyled rest
termination_by text => text.length
decreasing_by
  · exact length_lt_of_behindSequence? ‹_›
  · exact Nat.lt_succ_self _

theorem unstyled_of_some {text behind : List Char} (h : behindSequence? text = some behind) :
    unstyled text = unstyled behind := by
  cases text with
  | nil => cases h
  | cons c rest =>
    rw [unstyled]
    split
    · rename_i hbehind
      rw [Option.some.inj (hbehind.symm.trans h)]
    · rename_i hnone
      cases hnone.symm.trans h

theorem unstyled_cons {c : Char} (h : c ≠ '\x1b') (rest : List Char) :
    unstyled (c :: rest) = c :: unstyled rest := by
  have hnone : behindSequence? (c :: rest) = none := by
    unfold behindSequence?
    split
    · rename_i hcons
      exact absurd (List.cons.inj hcons).1 h
    · rfl
  rw [unstyled]
  split
  · rename_i hsome
    cases hnone.symm.trans hsome
  · rfl

/-- A sequence that breaks off is text. -/
example : unstyled ['a', '\x1b', '[', '3', '1', 'm', 'b', '\x1b', '[', '3'] =
    ['a', 'b', '\x1b', '[', '3'] := by
  cbv

/-- Whatever follows, the first text is the second one with styles. -/
def Shows (styled plain : List Char) : Prop :=
  ∀ rest, unstyled (styled ++ rest) = plain ++ unstyled rest

namespace Shows

variable {styled plain more morePlain : List Char}

theorem unstyled_eq (h : Shows styled plain) : unstyled styled = plain := by
  simpa [unstyled] using h []

theorem append (h : Shows styled plain) (hmore : Shows more morePlain) :
    Shows (styled ++ more) (plain ++ morePlain) := by
  intro rest
  rw [List.append_assoc, h, hmore, List.append_assoc]

theorem self {text : List Char} (h : '\x1b' ∉ text) : Shows text text := by
  intro rest
  induction text with
  | nil => rfl
  | cons c text ih =>
    obtain ⟨hc, htext⟩ := not_or.mp (mt List.mem_cons.mpr h)
    rw [List.cons_append, unstyled_cons (Ne.symm hc), ih htext, List.cons_append]

theorem sequence {code : String} (h : ∀ c ∈ code.toList, c.isDigit = true) :
    Shows (Text.sequence code).toList [] := by
  intro rest
  have hlist : (Text.sequence code).toList ++ rest =
      '\x1b' :: '[' :: (code.toList ++ 'm' :: rest) := by
    simp [Text.sequence]
  have hdigits : (code.toList ++ 'm' :: rest).dropWhile Char.isDigit = 'm' :: rest := by
    rw [List.dropWhile_append_of_pos h]
    rfl
  rw [hlist]
  refine unstyled_of_some ?_
  simp only [behindSequence?, hdigits]

theorem between {text before behind : String} (h : Shows text.toList plain)
    (hbefore : ∀ c ∈ before.toList, c.isDigit = true)
    (hbehind : ∀ c ∈ behind.toList, c.isDigit = true) :
    Shows (Text.sequence before ++ text ++ Text.sequence behind).toList plain := by
  have hall := ((sequence hbefore).append h).append (sequence hbehind)
  simpa using hall

end Shows

theorem isDigit_code (color : Color) : ∀ c ∈ color.code.toList, c.isDigit = true := by
  rw [← List.all_eq_true]
  cases color <;> decide

section Styles

variable {text : String} {plain : List Char} (h : Shows text.toList plain)

include h

theorem shows_paint (color : Color) : Shows (paint color text).toList plain :=
  h.between (isDigit_code color) (List.all_eq_true.mp (by decide))

theorem shows_bold : Shows (bold text).toList plain :=
  h.between (List.all_eq_true.mp (by decide)) (List.all_eq_true.mp (by decide))

theorem shows_dimmed : Shows (dimmed text).toList plain :=
  h.between (List.all_eq_true.mp (by decide)) (List.all_eq_true.mp (by decide))

end Styles

end Text

namespace Console

open Text (Shows shows_paint shows_bold shows_dimmed unstyled)

theorem shows_highlightWord (word : String) (h : '\x1b' ∉ word.toList) :
    Shows (highlightWord word).toList word.toList := by
  have hword : Shows word.toList word.toList := .self h
  unfold highlightWord
  split
  · exact shows_paint hword .blue
  · exact shows_paint hword .blue
  · split
    · exact shows_paint hword .cyan
    · exact shows_bold (shows_paint hword .magenta)
  · split
    · exact shows_paint hword .yellow
    · exact hword

theorem shows_highlightChar (isCommand : Bool) {c : Char} (h : c ≠ '\x1b') :
    Shows (highlightChar isCommand c).toList [c] := by
  have hchar : Shows c.toString.toList [c] := by
    have htext : c.toString.toList = [c] := by simp
    rw [htext]
    exact .self (by simpa using h.symm)
  unfold highlightChar
  dsimp only
  split_ifs
  · exact shows_paint hchar .yellow
  · exact shows_paint hchar .cyan
  · exact shows_paint hchar .green
  · exact shows_dimmed hchar
  · exact shows_paint hchar .magenta
  · exact hchar

theorem shows_finish {word : List Char} (h : '\x1b' ∉ word.reverse) :
    Shows (highlightFrom.finish word).toList word.reverse := by
  cases word with
  | nil => exact fun _ => rfl
  | cons c word =>
    have hword := shows_highlightWord (String.ofList (c :: word).reverse)
    rw [String.toList_ofList] at hword
    exact hword h

theorem shows_highlightFrom (isCommand : Bool) (word rest : List Char)
    (h : '\x1b' ∉ word.reverse ++ rest) :
    Shows (highlightFrom isCommand word rest).toList (word.reverse ++ rest) := by
  fun_induction highlightFrom isCommand word rest with
  | case1 word =>
    rw [List.append_nil] at h ⊢
    exact shows_finish h
  | case2 word c rest _ ih =>
    rw [List.reverse_cons, List.append_assoc] at ih
    exact ih h
  | case3 word c rest _ ih =>
    obtain ⟨hword, hrest⟩ := not_or.mp (mt List.mem_append.mpr h)
    obtain ⟨hc, hrest⟩ := not_or.mp (mt List.mem_cons.mpr hrest)
    rw [String.toList_append, String.toList_append, List.append_cons]
    exact ((shows_finish hword).append (shows_highlightChar isCommand (Ne.symm hc))).append
      (ih hrest)

/-- A line that has no escape character is what is left of its highlighted form when the control
sequences that select styles are deleted. -/
theorem highlighting_adds_colour_only (line : String) (h : '\x1b' ∉ line.toList) :
    unstyled (highlight line).toList = line.toList :=
  (shows_highlightFrom _ [] line.toList h).unstyled_eq

/-- What stands behind a coloured bracket is not taken for the rest of a control sequence. -/
theorem highlighting_adds_colour_only_to_bracket :
    '\x1b' ∉ "[31m".toList ∧
      highlight "[31m" = "\x1b[33m[\x1b[39m\x1b[33m31m\x1b[39m" ∧
      unstyled (highlight "[31m").toList = "[31m".toList := by
  have hplain : '\x1b' ∉ "[31m".toList := by decide
  exact ⟨hplain, by decide +kernel, highlighting_adds_colour_only "[31m" hplain⟩

end Console

end StackScript
