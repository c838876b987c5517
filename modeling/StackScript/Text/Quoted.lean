import StackScript.Text.Printable

set_option autoImplicit false

/-!
# Quoted text

A character or a string is shown between quotes. A backslash and the quote in use are written after
a backslash, the common controls by a letter, and a character that cannot be shown on its own by its
code point in hexadecimal.
-/
namespace StackScript.Text

def codePointEscape (c : Char) : List Char :=
  ['\\', 'u', '\x7b'] ++ Nat.toDigits 16 c.toNat ++ ['\x7d']

def escape (quotes : List Char) (c : Char) : List Char :=
  if c == '\x00' then ['\\', '0']
  else if c == '\t' then ['\\', 't']
  else if c == '\r' then ['\\', 'r']
  else if c == '\n' then ['\\', 'n']
  else if c == '\\' || quotes.contains c then ['\\', c]
  else if isShown c then [c]
  else codePointEscape c

def quotedString (s : String) : String :=
  String.ofList ('"' :: s.toList.flatMap (escape ['"']) ++ ['"'])

def quotedChar (c : Char) : String :=
  String.ofList ('\'' :: escape ['\''] c ++ ['\''])

/-- A character with both quotes escaped, without quotes around it. -/
def escapedChar (c : Char) : String := String.ofList (escape ['"', '\''] c)

end StackScript.Text
