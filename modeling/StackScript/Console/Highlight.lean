import StackScript.Text.Alphanumeric
import StackScript.Text.Style
import StackScript.Token.Basic

set_option autoImplicit false

/-!
# Colours for a line of input

Words, brackets, operators and quotes are coloured one by one, without regard to what they are part
of.
-/
namespace StackScript.Console

open Text (paint bold dimmed)

def isWordPart (c : Char) : Bool := Text.isAlphanumeric c || c == '_'

def startsWithDigit (word : String) : Bool :=
  match word.toList with
  | c :: _ => c.isDigit
  | [] => false

def highlightWord (word : String) : String :=
  match TokenKind.ofWord? word with
  | some (.bool _) | some (.keyword .noneK) => paint .blue word
  | some kind => if kind.isType then paint .cyan word else bold (paint .magenta word)
  | none => if startsWithDigit word then paint .yellow word else word

/-- The colour of a character outside words; in a command line the dots have one too. -/
def highlightChar (isCommand : Bool) (c : Char) : String :=
  let text := c.toString
  if "()[]\x7b\x7d".toList.contains c then paint .yellow text
  else if "+-*/%=<>!&|^~".toList.contains c then paint .cyan text
  else if c == '"' || c == '\'' then paint .green text
  else if c == '#' then dimmed text
  else if c == '.' && isCommand then paint .magenta text
  else text

/-- The rest of a line after the characters of a word, the last of them first. -/
def highlightFrom (isCommand : Bool) : List Char → List Char → String
  | word, [] => finish word
  | word, c :: rest =>
    if isWordPart c then highlightFrom isCommand (c :: word) rest
    else finish word ++ highlightChar isCommand c ++ highlightFrom isCommand [] rest
where
  finish (word : List Char) : String :=
    if word.isEmpty then "" else highlightWord (String.ofList word.reverse)

def highlight (line : String) : String :=
  highlightFrom (line.toList.head? == some '.') [] line.toList

end StackScript.Console
