import StackScript.Decimal.Reader
import StackScript.Machine.Basic

set_option autoImplicit false

/-!
# The command line

Arguments are read from left to right, and the first fault ends the reading. The limits and the
history file may also be given in the environment; that counts if the command line does not give
them.
-/
namespace StackScript.Console

inductive Setting where
  | code
  | maxCallDepth
  | stepLimit
  | history
deriving DecidableEq

inductive Flag where
  | interactive
  | dumpCode
  | dumpTree
  | verbose
deriving DecidableEq

inductive Switch where
  | setting (setting : Setting)
  | flag (flag : Flag)
  | help
  | version
deriving DecidableEq

namespace Switch

def ofLong? (name : String) : Option Switch :=
  match name with
  | "eval" => some (.setting .code)
  | "max-call-depth" => some (.setting .maxCallDepth)
  | "step-limit" => some (.setting .stepLimit)
  | "history" => some (.setting .history)
  | "interactive" | "repl" => some (.flag .interactive)
  | "dump-bytecode" => some (.flag .dumpCode)
  | "dump-ast" => some (.flag .dumpTree)
  | "verbose" => some (.flag .verbose)
  | "help" => some .help
  | "version" => some .version
  | _ => none

def ofShort? (c : Char) : Option Switch :=
  match c with
  | 'e' => some (.setting .code)
  | 'i' => some (.flag .interactive)
  | 'h' => some .help
  | 'V' => some .version
  | _ => none

end Switch

structure Invocation where
  file : Option String := none
  code : Option String := none
  maxCallDepth : Option Nat := none
  stepLimit : Option Nat := none
  history : Option String := none
  flags : List Flag := []

inductive UsageError where
  | unexpected (argument : String)
  | missingValue
  | invalidValue (value : String)
  | repeated
  | unneededValue (value : String)

def UsageError.message : UsageError → String
  | .unexpected argument => s!"unexpected argument '{argument}' found"
  | .missingValue => "a value is required but none was supplied"
  | .invalidValue value => s!"invalid value '{value}'"
  | .repeated => "an argument cannot be used multiple times"
  | .unneededValue value => s!"unexpected value '{value}' found"

inductive Request where
  | run (invocation : Invocation)
  | help
  | version

namespace Invocation

def limits (invocation : Invocation) : Limits where
  maxCallDepth := invocation.maxCallDepth.getD 128
  stepLimit := invocation.stepLimit

def has (invocation : Invocation) (flag : Flag) : Bool := invocation.flags.contains flag

def isInteractive (invocation : Invocation) : Bool :=
  invocation.has .interactive || (invocation.code.isNone && invocation.file.isNone)

def isSet (invocation : Invocation) : Setting → Bool
  | .code => invocation.code.isSome
  | .maxCallDepth => invocation.maxCallDepth.isSome
  | .stepLimit => invocation.stepLimit.isSome
  | .history => invocation.history.isSome

def readNumber (value : String) : Except UsageError Nat :=
  match Decimal.readUnsigned? value.toList with
  | some n => .ok n
  | none => .error (.invalidValue value)

def readPath (value : String) : Except UsageError String :=
  if value.isEmpty then .error (.invalidValue value) else .ok value

def set (invocation : Invocation) (setting : Setting) (value : String) :
    Except UsageError Invocation := do
  if invocation.isSet setting then throw .repeated
  match setting with
  | .code => return { invocation with code := some value }
  | .maxCallDepth => return { invocation with maxCallDepth := some (← readNumber value) }
  | .stepLimit => return { invocation with stepLimit := some (← readNumber value) }
  | .history => return { invocation with history := some (← readPath value) }

def setFlag (invocation : Invocation) (flag : Flag) : Except UsageError Invocation :=
  if invocation.has flag then .error .repeated
  else .ok { invocation with flags := flag :: invocation.flags }

def setFile (invocation : Invocation) (value : String) : Except UsageError Invocation :=
  if invocation.file.isSome then .error (.unexpected value)
  else return { invocation with file := some (← readPath value) }

end Invocation

inductive Reading where
  | proceed (invocation : Invocation)
  /-- The next argument is the value of this setting. -/
  | awaitValue (setting : Setting) (invocation : Invocation)
  /-- Nothing after this is read. -/
  | answer (request : Request)

def readLong (invocation : Invocation) (text : List Char) : Except UsageError Reading := do
  let name := String.ofList (text.takeWhile (· != '='))
  let value? := match text.dropWhile (· != '=') with
    | _ :: value => some (String.ofList value)
    | [] => none
  match Switch.ofLong? name, value? with
  | none, _ => throw (.unexpected name)
  | some (.setting setting), some value => return .proceed (← invocation.set setting value)
  | some (.setting setting), none => return .awaitValue setting invocation
  | some _, some value => throw (.unneededValue value)
  | some (.flag flag), none => return .proceed (← invocation.setFlag flag)
  | some .help, none => return .answer .help
  | some .version, none => return .answer .version

/-- Short options may stand together, the last one with its value. -/
def readShort (invocation : Invocation) : List Char → Except UsageError Reading
  | [] => return .proceed invocation
  | c :: rest => do
    match Switch.ofShort? c, rest with
    | none, _ => throw (.unexpected c.toString)
    | some (.setting setting), [] => return .awaitValue setting invocation
    | some (.setting setting), '=' :: value =>
      return .proceed (← invocation.set setting (String.ofList value))
    | some (.setting setting), value =>
      return .proceed (← invocation.set setting (String.ofList value))
    | some (.flag flag), rest => readShort (← invocation.setFlag flag) rest
    | some .help, _ => return .answer .help
    | some .version, _ => return .answer .version

def looksLikeOption (argument : String) : Bool :=
  match argument.toList with
  | '-' :: _ :: _ => true
  | _ => false

def readArgument (invocation : Invocation) (argument : String) : Except UsageError Reading :=
  match argument.toList with
  | '-' :: '-' :: name => readLong invocation name
  | '-' :: c :: rest => readShort invocation (c :: rest)
  | _ => return .proceed (← invocation.setFile argument)

def readFiles (invocation : Invocation) : List String → Except UsageError Request
  | [] => return .run invocation
  | argument :: rest => do readFiles (← invocation.setFile argument) rest

/-- Reads arguments, the first of which is the value of `awaiting` if there is such a setting. -/
def readArguments (invocation : Invocation) (awaiting : Option Setting) :
    List String → Except UsageError Request
  | [] => if awaiting.isSome then throw .missingValue else return .run invocation
  | argument :: rest => do
    match awaiting with
    | some setting =>
      if looksLikeOption argument then throw .missingValue
      readArguments (← invocation.set setting argument) none rest
    | none =>
      if argument == "--" then readFiles invocation rest
      else match ← readArgument invocation argument with
        | .proceed invocation => readArguments invocation none rest
        | .awaitValue setting invocation => readArguments invocation (some setting) rest
        | .answer request => return request

def environmentSettings : List (Setting × String) := [
  (.maxCallDepth, "HEIR_MAX_CALL_DEPTH"),
  (.stepLimit, "HEIR_STEP_LIMIT"),
  (.history, "HEIR_HISTORY")]

def addEnvironment (environment : List (String × String)) (invocation : Invocation) :
    Except UsageError Invocation :=
  environmentSettings.foldlM (fun invocation (setting, name) =>
    match environment.lookup name with
    | some value =>
      if invocation.isSet setting then .ok invocation else invocation.set setting value
    | none => .ok invocation) invocation

def Request.read (arguments : List String) (environment : List (String × String)) :
    Except UsageError Request := do
  match ← readArguments {} none arguments with
  | .run invocation => return .run (← addEnvironment environment invocation)
  | request => return request

end StackScript.Console
