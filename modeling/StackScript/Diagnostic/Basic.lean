import StackScript.Source.Span

set_option autoImplicit false

/-!
# Diagnostics

Every stage, from the scanner to the machine, reports problems as diagnostics and goes on. A
diagnostic has a stable code, a severity, a message and the place it is about; the diagnostics of a
run are kept in the order in which they were reported.
-/
namespace StackScript

inductive Severity where
  | error
  | warning
deriving DecidableEq

def Severity.text : Severity → String
  | .error => "error"
  | .warning => "warning"

inductive DiagnosticCode where
  | unexpectedCharacter
  | unterminatedString
  | unterminatedChar
  | malformedNumber
  | expectedToken
  | unexpectedToken
  | invalidAssignment
  | typeMismatch
  | unresolvedName
  | argumentCount
  | noMatchingOperator
  | unsupportedOperator
  | invalidCoercion
  | notCallable
  | notIndexable
  | unbalancedScope
  | callDepthExceeded
  | stepLimitExceeded
  | invalidJumpTarget
  | malformedInstruction
  | stackCorruption
deriving DecidableEq

def DiagnosticCode.text : DiagnosticCode → String
  | .unexpectedCharacter => "H001"
  | .unterminatedString => "H002"
  | .unterminatedChar => "H002B"
  | .malformedNumber => "H003"
  | .expectedToken => "H004"
  | .unexpectedToken => "H005"
  | .invalidAssignment => "H006"
  | .typeMismatch => "H007"
  | .unresolvedName => "H008"
  | .argumentCount => "H009"
  | .noMatchingOperator => "H010"
  | .unsupportedOperator => "H011"
  | .invalidCoercion => "H012"
  | .notCallable => "H013"
  | .notIndexable => "H014"
  | .unbalancedScope => "H015"
  | .callDepthExceeded => "H016"
  | .stepLimitExceeded => "H017"
  | .invalidJumpTarget => "H001C"
  | .malformedInstruction => "H001D"
  | .stackCorruption => "HDEV"

structure Diagnostic where
  code : DiagnosticCode
  severity : Severity
  message : String
  span : Span
deriving DecidableEq

namespace Diagnostic

def isError (d : Diagnostic) : Bool := d.severity == .error

def summary (d : Diagnostic) : String :=
  s!"{d.severity.text}[{d.code.text}]: {d.message}"

def render (d : Diagnostic) (source : String) : String :=
  let place := d.span.location source
  s!"{d.severity.text}[{d.code.text}] {place.line}:{place.column}: {d.message}"

end Diagnostic

structure DiagnosticLog where
  entries : Array Diagnostic := #[]

namespace DiagnosticLog

def empty : DiagnosticLog := {}

def push (log : DiagnosticLog) (d : Diagnostic) : DiagnosticLog := ⟨log.entries.push d⟩

def error (log : DiagnosticLog) (code : DiagnosticCode) (message : String) (span : Span) :
    DiagnosticLog :=
  log.push ⟨code, .error, message, span⟩

def warning (log : DiagnosticLog) (code : DiagnosticCode) (message : String) (span : Span) :
    DiagnosticLog :=
  log.push ⟨code, .warning, message, span⟩

def size (log : DiagnosticLog) : Nat := log.entries.size

def isEmpty (log : DiagnosticLog) : Bool := log.entries.isEmpty

def hasErrors (log : DiagnosticLog) : Bool := log.entries.any (·.isError)

def contains (log : DiagnosticLog) (code : DiagnosticCode) : Bool :=
  log.entries.any (·.code == code)

def toList (log : DiagnosticLog) : List Diagnostic := log.entries.toList

/-- Everything reported so far, and a log that starts again. -/
def take (log : DiagnosticLog) : List Diagnostic × DiagnosticLog := (log.toList, empty)

end DiagnosticLog

end StackScript
