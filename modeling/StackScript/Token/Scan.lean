import StackScript.Token.Basic
import StackScript.Diagnostic.Basic
import StackScript.Decimal.Reader
import StackScript.Text.Identifier

set_option autoImplicit false

/-!
# Reading the tokens of a source

`Lexeme.read` reads one token from the front of a text and tells which characters it took; it knows
nothing of positions. `tokenize` alternates it with the layout between tokens and adds the spans. A
lexical error takes some text too, so that scanning always goes on behind it; its diagnostic has the
span of the token.
-/
namespace StackScript

inductive LexicalFault where
  | unexpectedCharacter (c : Char)
  | unterminatedString
  | malformedChar
  | malformedNumber

def LexicalFault.code : LexicalFault → DiagnosticCode
  | .unexpectedCharacter _ => .unexpectedCharacter
  | .unterminatedString => .unterminatedString
  | .malformedChar => .unterminatedChar
  | .malformedNumber => .malformedNumber

def LexicalFault.message : LexicalFault → String
  | .unexpectedCharacter c => s!"Unexpected character '{Text.escapedChar c}'"
  | .unterminatedString => "Unterminated string literal"
  | .malformedChar => "Unterminated or malformed character literal"
  | .malformedNumber => "Malformed number literal"

/-- One token's worth of text: what it is, the characters it took and the ones behind it. -/
structure Lexeme where
  kind : TokenKind
  text : List Char
  rest : List Char
  fault : Option LexicalFault := none

namespace Lexeme

def faulty (fault : LexicalFault) (text rest : List Char) : Lexeme :=
  { kind := .invalid, text, rest, fault := some fault }

def unescape (c : Char) : Char :=
  if c == 'n' then '\n'
  else if c == 'r' then '\r'
  else if c == 't' then '\t'
  else if c == '0' then '\x00'
  else c

structure StringBody where
  value : List Char
  text : List Char
  rest : List Char
  closed : Bool

def stringBody : List Char → StringBody
  | [] => ⟨[], [], [], false⟩
  | '"' :: rest => ⟨[], ['"'], rest, true⟩
  | ['\\'] => ⟨[], ['\\'], [], false⟩
  | '\\' :: c :: rest =>
    let body := stringBody rest
    { body with value := unescape c :: body.value, text := '\\' :: c :: body.text }
  | c :: rest =>
    let body := stringBody rest
    { body with value := c :: body.value, text := c :: body.text }

def ofString (rest : List Char) : Lexeme :=
  let body := stringBody rest
  { kind := .string (String.ofList body.value)
    text := '"' :: body.text
    rest := body.rest
    fault := if body.closed then none else some .unterminatedString }

/-- The text of a malformed character literal runs to the next quote or to the end of the line. -/
def malformedTail : List Char → List Char × List Char
  | [] => ([], [])
  | c :: rest =>
    if c == '\n' then ([], c :: rest)
    else if c == '\'' then ([c], rest)
    else
      let (text, rest) := malformedTail rest
      (c :: text, rest)

def malformedChar (taken rest : List Char) : Lexeme :=
  let (text, rest) := malformedTail rest
  faulty .malformedChar ('\'' :: taken ++ text) rest

/-- What follows the opening quote of a character: one character or an escape, and a quote. -/
def ofChar : List Char → Lexeme
  | '\\' :: c :: '\'' :: rest => { kind := .char (unescape c), text := ['\'', '\\', c, '\''], rest }
  | '\\' :: c :: rest => malformedChar ['\\', c] rest
  | '\\' :: rest => malformedChar ['\\'] rest
  | '\'' :: rest => malformedChar ['\''] rest
  | '\n' :: rest => malformedChar ['\n'] rest
  | c :: '\'' :: rest => { kind := .char c, text := ['\'', c, '\''], rest }
  | c :: rest => malformedChar [c] rest
  | [] => malformedChar [] []

/-- Digits may be grouped by underscores, which carry no value. -/
def inDigits (radix : Nat) (c : Char) : Bool := Decimal.isDigitOf radix c || c == '_'

def withoutGroups (digits : List Char) : List Char := digits.filter (· != '_')

def ofInteger (radix : Nat) (digits text rest : List Char) : Lexeme :=
  let value := Decimal.valueOf radix digits
  if digits.isEmpty || Nat.pow 2 63 ≤ value then faulty .malformedNumber text rest
  else { kind := .int (Int64.ofNat value), text, rest }

def radixOf? (c : Char) : Option Nat :=
  if c == 'x' || c == 'X' then some 16
  else if c == 'o' || c == 'O' then some 8
  else if c == 'b' || c == 'B' then some 2
  else none

/-- A point that a digit follows belongs to a number. -/
def startsFraction : List Char → Bool
  | '.' :: c :: _ => c.isDigit
  | _ => false

/-- A literal with a fraction: `whole` is the part before the point. A second fraction makes the
whole run of points and digits malformed. -/
def ofFraction (whole rest : List Char) : Lexeme :=
  let digits := (rest.drop 1).takeWhile (inDigits 10)
  let text := whole ++ '.' :: digits
  let rest := (rest.drop 1).dropWhile (inDigits 10)
  if startsFraction rest then
    let inRun (c : Char) : Bool := c == '.' || c.isDigit
    faulty .malformedNumber (text ++ rest.takeWhile inRun) (rest.dropWhile inRun)
  else
    match Decimal.readFloat? (withoutGroups text) with
    | some value => { kind := .float value, text, rest }
    | none => faulty .malformedNumber text rest

def ofDecimal (first : Char) (rest : List Char) : Lexeme :=
  let text := first :: rest.takeWhile (inDigits 10)
  let rest := rest.dropWhile (inDigits 10)
  if startsFraction rest then ofFraction text rest else ofInteger 10 (withoutGroups text) text rest

def ofRadix (radix : Nat) (mark : Char) (rest : List Char) : Lexeme :=
  let digits := rest.takeWhile (inDigits radix)
  ofInteger radix (withoutGroups digits) ('0' :: mark :: digits) (rest.dropWhile (inDigits radix))

def ofNumber (first : Char) (rest : List Char) : Lexeme :=
  match rest with
  | mark :: digits =>
    if first == '0' then
      match radixOf? mark with
      | some radix => ofRadix radix mark digits
      | none => ofDecimal first rest
    else ofDecimal first rest
  | [] => ofDecimal first rest

/-- The word at the front of a text, if `isTail` tells which characters may go on with it. -/
def wordOf (isTail : Char → Bool) (first : Char) (rest : List Char) : Lexeme :=
  let text := first :: rest.takeWhile isTail
  let word := String.ofList text
  { kind := (TokenKind.ofWord? word).getD (.identifier word)
    text
    rest := rest.dropWhile isTail }

def ofWord (first : Char) (rest : List Char) : Lexeme := wordOf Text.isIdentifierTail first rest

def symbol? (text : List Char) : Option Symbol :=
  Symbol.all.find? fun s => s.spelling.isPrefixOf text

/-- The token at the front of the text `first :: rest`, which does not start with layout. -/
def read (first : Char) (rest : List Char) : Lexeme :=
  match symbol? (first :: rest) with
  | some s =>
    { kind := .symbol s, text := s.spelling, rest := (first :: rest).drop s.spelling.length }
  | none =>
    if first == '"' then ofString rest
    else if first == '\'' then ofChar rest
    else if first.isDigit then ofNumber first rest
    else if Text.isIdentifierStart first then ofWord first rest
    else faulty (.unexpectedCharacter first) [first] rest

end Lexeme

/-- Splits off the layout at the front of a text: blanks, and comments from a number sign up to the
end of the line. -/
def layout (inComment : Bool) : List Char → List Char × List Char
  | [] => ([], [])
  | c :: rest =>
    if inComment || c == ' ' || c == '\t' || c == '\n' || c == '\r' || c == '#' then
      let (gap, rest) := layout ((inComment || c == '#') && c != '\n') rest
      (c :: gap, rest)
    else ([], c :: rest)

structure ScannedToken where
  token : Token
  fault : Option LexicalFault

/-- Reads tokens from a text that starts at byte `position`. Every token takes a character, so as
many rounds as there are characters, and one for the end, are enough. -/
def scan : Nat → Nat → List Char → List ScannedToken
  | 0, position, _ => [⟨⟨.endOfFile, ⟨position, position⟩⟩, none⟩]
  | rounds + 1, position, text =>
    let (gap, rest) := layout false text
    let start := position + Source.byteLength gap
    match rest with
    | [] => [⟨⟨.endOfFile, ⟨start, start⟩⟩, none⟩]
    | first :: rest =>
      let lexeme := Lexeme.read first rest
      let stop := start + Source.byteLength lexeme.text
      ⟨⟨lexeme.kind, ⟨start, stop⟩⟩, lexeme.fault⟩ :: scan rounds stop lexeme.rest

def ScannedToken.diagnostic? (scanned : ScannedToken) : Option Diagnostic :=
  scanned.fault.map fun fault => ⟨fault.code, .error, fault.message, scanned.token.span⟩

structure Tokens where
  tokens : List Token
  diagnostics : List Diagnostic

def tokenize (source : String) : Tokens :=
  let text := source.toList
  let scanned := scan (text.length + 1) 0 text
  { tokens := scanned.map (·.token), diagnostics := scanned.filterMap (·.diagnostic?) }

end StackScript
