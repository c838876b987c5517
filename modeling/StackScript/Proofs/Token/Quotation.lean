import StackScript.Proofs.Token.Front

set_option autoImplicit false

/-!
# Strings and characters in quotes

Main statement: `quotations_read_back`. A text becomes a string literal by a backslash before every
backslash and every quote in it; a character likewise, with the end of a line written as an escape.
Either literal is read as what was written, whatever comes behind it. The converse does not hold:
`\t` and a tab between quotes are read as the same string.
-/
namespace StackScript

def escapedInString (c : Char) : List Char := if c = '\\' ∨ c = '"' then ['\\', c] else [c]

def escapedInChar (c : Char) : List Char :=
  if c = '\n' then ['\\', 'n'] else if c = '\\' ∨ c = '\'' then ['\\', c] else [c]

def stringLiteral (s : String) : String :=
  String.ofList ('"' :: (s.toList.flatMap escapedInString ++ ['"']))

def charLiteral (c : Char) : String := String.ofList ('\'' :: (escapedInChar c ++ ['\'']))

example : stringLiteral "\\\"\n" = "\"\\\\\\\"\n\"" ∧ charLiteral '\n' = "'\\n'" := by decide

namespace Lexeme

theorem stringBody_escaped (c : Char) (text : List Char) :
    stringBody (escapedInString c ++ text) =
      { stringBody text with
        value := c :: (stringBody text).value
        text := escapedInString c ++ (stringBody text).text } := by
  by_cases hescaped : c = '\\' ∨ c = '"'
  · have hsame : unescape c = c := by obtain rfl | rfl := hescaped <;> rfl
    rw [escapedInString, if_pos hescaped]
    change stringBody ('\\' :: c :: text) = _
    rw [stringBody]
    simp [hsame]
  · rw [escapedInString, if_neg hescaped]
    rw [not_or] at hescaped
    exact stringBody_plain hescaped.2 hescaped.1 text

theorem stringBody_literal (s behind : List Char) :
    stringBody (s.flatMap escapedInString ++ '"' :: behind) =
      ⟨s, s.flatMap escapedInString ++ ['"'], behind, true⟩ := by
  induction s with
  | nil => rfl
  | cons c s ih =>
    rw [List.flatMap_cons, List.append_assoc, stringBody_escaped, ih]
    simp

theorem read_stringLiteral (s behind : List Char) :
    read '"' (s.flatMap escapedInString ++ ['"'] ++ behind) =
      { kind := .string (String.ofList s), text := '"' :: (s.flatMap escapedInString ++ ['"']),
        rest := behind } := by
  have hquote : startsNoSymbol '"' = true := by decide
  rw [read_eq_continued hquote, List.append_assoc]
  change ofString (s.flatMap escapedInString ++ '"' :: behind) = _
  rw [ofString, stringBody_literal]
  rfl

theorem ofChar_escaped (c : Char) (behind : List Char) :
    ofChar (escapedInChar c ++ '\'' :: behind) =
      { kind := .char c, text := '\'' :: (escapedInChar c ++ ['\'']), rest := behind } := by
  unfold escapedInChar
  split
  · rename_i hline
    subst hline
    rfl
  · rename_i hline
    split
    · rename_i hescaped
      have hsame : unescape c = c := by obtain rfl | rfl := hescaped <;> rfl
      change ofChar ('\\' :: c :: '\'' :: behind) = _
      rw [ofChar, hsame]
      rfl
    · rename_i hescaped
      rw [not_or] at hescaped
      exact ofChar.eq_6 c behind (fun _ h _ => hescaped.1 h) hescaped.1 hescaped.2 hline

theorem read_charLiteral (c : Char) (behind : List Char) :
    read '\'' (escapedInChar c ++ ['\''] ++ behind) =
      { kind := .char c, text := '\'' :: (escapedInChar c ++ ['\'']), rest := behind } := by
  have hquote : startsNoSymbol '\'' = true := by decide
  rw [read_eq_continued hquote, List.append_assoc]
  exact ofChar_escaped c behind

end Lexeme

/-- The literal of any text is scanned as that string, and the literal of any character as that
character: one token with the span of the literal and without a report, whatever is behind it. -/
theorem quotations_read_back (behind : String) :
    (∀ s : String, ReadsFirst (stringLiteral s) behind (.string s) none) ∧
      ∀ c : Char, ReadsFirst (charLiteral c) behind (.char c) none := by
  constructor
  · intro s
    refine readsFirst_of_read (by decide) (String.toList_ofList) ?_
    rw [Lexeme.read_stringLiteral, String.ofList_toList]
  · intro c
    exact readsFirst_of_read (by decide) String.toList_ofList (Lexeme.read_charLiteral c _)

end StackScript
