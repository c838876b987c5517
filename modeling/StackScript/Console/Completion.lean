import StackScript.Console.Command
import StackScript.Console.Highlight

set_option autoImplicit false

/-!
# Completing a word

The word before the cursor is completed to the keywords and commands that it begins. Positions in a
line count bytes, and a word is taken to start one byte after the separator before it: after a
separator of several bytes there is no such place, and nothing can be completed.
-/
namespace StackScript.Console

def completionWords : List String := [
  "let", "mut", "fn", "if", "else", "return", "none", "true", "false", "int", "float", "string",
  "char", "bool"] ++ Command.words

/-- The text before a byte position, if a character ends there. -/
def textBefore? : Nat → List Char → Option (List Char)
  | 0, _ => some []
  | _ + 1, [] => none
  | position + 1, c :: rest =>
    if c.utf8Size ≤ position + 1 then
      (textBefore? (position + 1 - c.utf8Size) rest).map (c :: ·)
    else none

def isCompletable (c : Char) : Bool := isWordPart c || c == '.'

def lastWord? (text : List Char) : Option (List Char) :=
  let word := (text.reverse.takeWhile isCompletable).reverse
  match text.reverse.dropWhile isCompletable with
  | separator :: _ => if separator.utf8Size == 1 then some word else none
  | [] => some word

structure Candidate where
  display : String
  /-- What is to be added to the word. -/
  replacement : String

def candidates (word : List Char) : List Candidate :=
  (completionWords.filter fun w => word.isPrefixOf w.toList).map fun w =>
    ⟨w, String.ofList (w.toList.drop word.length)⟩

structure Completion where
  start : Nat
  candidates : List Candidate
  /-- The rest of the first longer word, shown when the cursor is at the end of the line. -/
  hint : Option String

def hint? (word : List Char) : Option String :=
  if word.length < 2 then none
  else
    let longer := (candidates word).find? fun candidate => !candidate.replacement.isEmpty
    longer.map fun candidate => Text.dimmed candidate.replacement

/-- What to offer for the word that ends at a byte position. -/
def complete? (line : String) (position : Nat) : Option Completion := do
  let before ← textBefore? position line.toList
  let word ← lastWord? before
  return {
    start := position
    candidates := if word.isEmpty then [] else candidates word
    hint := if before.length < line.length then none else hint? word }

end StackScript.Console
