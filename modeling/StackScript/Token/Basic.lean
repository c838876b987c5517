import StackScript.Source.Span
import StackScript.Text.Quoted
import StackScript.Decimal.Layout

set_option autoImplicit false

/-!
# Tokens

A token is a literal, a name, a keyword or a symbol, with the span of source text it was read from.
The sequence of tokens of a source ends with a token for the end of the text; a piece of text that
is no token is kept as an invalid one.
-/
namespace StackScript

inductive Keyword where
  | letK
  | mutK
  | fnK
  | ifK
  | elseK
  | returnK
  | noneK
  | intK
  | floatK
  | stringK
  | charK
  | boolK
deriving DecidableEq

def Keyword.text : Keyword → String
  | .letK => "let"
  | .mutK => "mut"
  | .fnK => "fn"
  | .ifK => "if"
  | .elseK => "else"
  | .returnK => "return"
  | .noneK => "none"
  | .intK => "int"
  | .floatK => "float"
  | .stringK => "string"
  | .charK => "char"
  | .boolK => "bool"

def Keyword.isType : Keyword → Bool
  | .intK | .floatK | .stringK | .charK | .boolK | .noneK => true
  | _ => false

inductive Symbol where
  | leftBrace
  | rightBrace
  | leftParen
  | rightParen
  | leftBracket
  | rightBracket
  | dot
  | comma
  | colon
  | semicolon
  | arrow
  | plus
  | plusPlus
  | plusEqual
  | minus
  | minusMinus
  | minusEqual
  | star
  | starEqual
  | slash
  | slashEqual
  | slashSlash
  | slashSlashEqual
  | percent
  | percentEqual
  | caret
  | caretEqual
  | ampersand
  | ampersandEqual
  | ampersandAmpersand
  | ampersandAmpersandEqual
  | pipe
  | pipeEqual
  | pipePipe
  | pipePipeEqual
  | tilde
  | tildeEqual
  | bang
  | bangEqual
  | equal
  | equalEqual
  | less
  | lessEqual
  | lessLess
  | lessLessEqual
  | greater
  | greaterEqual
  | greaterGreater
  | greaterGreaterEqual
deriving DecidableEq

def Symbol.spelling : Symbol → List Char
  | .leftBrace => ['\x7b']
  | .rightBrace => ['\x7d']
  | .leftParen => ['(']
  | .rightParen => [')']
  | .leftBracket => ['[']
  | .rightBracket => [']']
  | .dot => ['.']
  | .comma => [',']
  | .colon => [':']
  | .semicolon => [';']
  | .arrow => ['-', '>']
  | .plus => ['+']
  | .plusPlus => ['+', '+']
  | .plusEqual => ['+', '=']
  | .minus => ['-']
  | .minusMinus => ['-', '-']
  | .minusEqual => ['-', '=']
  | .star => ['*']
  | .starEqual => ['*', '=']
  | .slash => ['/']
  | .slashEqual => ['/', '=']
  | .slashSlash => ['/', '/']
  | .slashSlashEqual => ['/', '/', '=']
  | .percent => ['%']
  | .percentEqual => ['%', '=']
  | .caret => ['^']
  | .caretEqual => ['^', '=']
  | .ampersand => ['&']
  | .ampersandEqual => ['&', '=']
  | .ampersandAmpersand => ['&', '&']
  | .ampersandAmpersandEqual => ['&', '&', '=']
  | .pipe => ['|']
  | .pipeEqual => ['|', '=']
  | .pipePipe => ['|', '|']
  | .pipePipeEqual => ['|', '|', '=']
  | .tilde => ['~']
  | .tildeEqual => ['~', '=']
  | .bang => ['!']
  | .bangEqual => ['!', '=']
  | .equal => ['=']
  | .equalEqual => ['=', '=']
  | .less => ['<']
  | .lessEqual => ['<', '=']
  | .lessLess => ['<', '<']
  | .lessLessEqual => ['<', '<', '=']
  | .greater => ['>']
  | .greaterEqual => ['>', '=']
  | .greaterGreater => ['>', '>']
  | .greaterGreaterEqual => ['>', '>', '=']

def Symbol.text (s : Symbol) : String := String.ofList s.spelling

/-- All symbols, the longer spellings first, so that the first one that fits is the longest. -/
def Symbol.all : List Symbol := [
  .slashSlashEqual, .ampersandAmpersandEqual, .pipePipeEqual, .lessLessEqual, .greaterGreaterEqual,
  .arrow, .plusPlus, .plusEqual, .minusMinus, .minusEqual, .starEqual, .slashEqual, .slashSlash,
  .percentEqual, .caretEqual, .ampersandEqual, .ampersandAmpersand, .pipeEqual, .pipePipe,
  .tildeEqual, .bangEqual, .equalEqual, .lessEqual, .lessLess, .greaterEqual, .greaterGreater,
  .leftBrace, .rightBrace, .leftParen, .rightParen, .leftBracket, .rightBracket, .dot, .comma,
  .colon, .semicolon, .plus, .minus, .star, .slash, .percent, .caret, .ampersand, .pipe, .tilde,
  .bang, .equal, .less, .greater]

inductive TokenKind where
  | int (value : Int64)
  | float (value : Float)
  | string (value : String)
  | char (value : Char)
  | bool (value : Bool)
  | identifier (name : String)
  | keyword (word : Keyword)
  | symbol (s : Symbol)
  | endOfFile
  | invalid

namespace TokenKind

def ofWord? (word : String) : Option TokenKind :=
  match word with
  | "let" => some (.keyword .letK)
  | "mut" => some (.keyword .mutK)
  | "fn" => some (.keyword .fnK)
  | "if" => some (.keyword .ifK)
  | "else" => some (.keyword .elseK)
  | "return" => some (.keyword .returnK)
  | "none" => some (.keyword .noneK)
  | "true" => some (.bool true)
  | "false" => some (.bool false)
  | "int" => some (.keyword .intK)
  | "float" => some (.keyword .floatK)
  | "string" => some (.keyword .stringK)
  | "char" => some (.keyword .charK)
  | "bool" => some (.keyword .boolK)
  | _ => none

def isType : TokenKind → Bool
  | .keyword word => word.isType
  | _ => false

def isEndOfFile : TokenKind → Bool
  | .endOfFile => true
  | _ => false

def isInvalid : TokenKind → Bool
  | .invalid => true
  | _ => false

def display : TokenKind → String
  | .int value => toString value.toInt
  | .float value => Decimal.Layout.plain.write value
  | .string value => Text.quotedString value
  | .char value => Text.quotedChar value
  | .bool value => if value then "true" else "false"
  | .identifier name => name
  | .keyword word => word.text
  | .symbol s => s.text
  | .endOfFile => "end of file"
  | .invalid => "invalid token"

end TokenKind

structure Token where
  kind : TokenKind
  span : Span

end StackScript
