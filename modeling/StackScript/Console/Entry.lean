import StackScript.Text.Blank

set_option autoImplicit false

/-!
# Complete entries

An entry at the console may go on over several lines. It is complete when its brackets and quotes
are closed and it does not end in a character after which more has to come.
-/
namespace StackScript.Console

inductive Context where
  | code
  | comment
  | quoted (quote : Char)
  | escaped (quote : Char)

def closer? : Char → Option Char
  | '(' => some ')'
  | '[' => some ']'
  | '\x7b' => some '\x7d'
  | _ => none

def isCloser (c : Char) : Bool := c == ')' || c == ']' || c == '\x7d'

/-- Whether all brackets are closed, those in `awaited` being still open. A bracket that closes
another one than the last opened makes the text count as balanced. -/
def closesAll : Context → List Char → List Char → Bool
  | .code, awaited, [] => awaited.isEmpty
  | .comment, awaited, [] => awaited.isEmpty
  | .quoted _, _, [] => false
  | .escaped _, _, [] => false
  | .comment, awaited, c :: rest =>
    closesAll (if c == '\n' then .code else .comment) awaited rest
  | .escaped quote, awaited, _ :: rest => closesAll (.quoted quote) awaited rest
  | .quoted quote, awaited, c :: rest =>
    if c == '\\' then closesAll (.escaped quote) awaited rest
    else if c == quote then closesAll .code awaited rest
    else closesAll (.quoted quote) awaited rest
  | .code, awaited, c :: rest =>
    if c == '"' || c == '\'' then closesAll (.quoted c) awaited rest
    else if c == '#' then closesAll .comment awaited rest
    else if isCloser c then
      match awaited with
      | expected :: awaited => if expected == c then closesAll .code awaited rest else true
      | [] => true
    else match closer? c with
      | some closer => closesAll .code (closer :: awaited) rest
      | none => closesAll .code awaited rest

def isBalanced (text : List Char) : Bool := closesAll .code [] text

/-- The characters after which an entry goes on. -/
def openEnds : List Char := ['\\', '+', '-', '*', '/', '=', ',', '\x7b', '(', '[']

def isComplete (text : List Char) : Bool :=
  isBalanced text &&
    match (Text.trimEnd text).getLast? with
    | some last => !openEnds.contains last
    | none => true

end StackScript.Console
