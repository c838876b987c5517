import StackScript.Console.Command
import StackScript.Console.Entry
import StackScript.Session
import StackScript.Text.Printable

set_option autoImplicit false

/-!
# The interactive shell

The shell takes lines, joins them to entries, and runs each entry as a command or as source text in
one session. Reading a file is left to the caller, so that a shell can run inside any monad.
-/
namespace StackScript.Console

open Text (paint bold dimmed padRight)

structure Output where
  stdout : String := ""
  stderr : String := ""

namespace Output

def append (a b : Output) : Output := ⟨a.stdout ++ b.stdout, a.stderr ++ b.stderr⟩

instance : Append Output := ⟨append⟩

def line (text : String) : Output := { stdout := text ++ "\n" }

def errorLine (text : String) : Output := { stderr := text ++ "\n" }

def lines (texts : List String) : Output := { stdout := String.join (texts.map (· ++ "\n")) }

def diagnostics (found : List Diagnostic) (source : String) : Output :=
  { stderr := String.join (found.map fun d =>
      paint (if d.isError then .red else .yellow) (d.render source) ++ "\n") }

end Output

def versionNumber : String := "0.1.0"

def showValue (heap : Heap) (value : Value) : String :=
  match value with
  | .none => dimmed (paint .blue "none")
  | .bool _ | .int _ | .float _ => paint .yellow value.display
  | .char c => paint .green (Text.quotedChar c)
  | .string s => paint .green (Text.quotedString s)
  | .object _ => paint .cyan value.display
  | .function ref =>
    let arity := match heap.closure? ref with
      | some closure => closure.parameters.length
      | none => 0
    paint .magenta ("<fn " ++ ref.name ++ "/" ++ toString arity ++ ">")

def greeting : Output :=
  .lines [
    "",
    "  " ++ bold (paint .white "Heir") ++ " " ++ dimmed "v" ++ " " ++
      paint .brightYellow versionNumber,
    "  " ++ dimmed "Type" ++ " " ++ paint .cyan ".help" ++ " " ++ dimmed "for available commands",
    ""]

def helpText : Output :=
  let entry (color : Text.Color) (item : String × String) : String :=
    "  " ++ paint color (padRight 18 item.1) ++ " " ++ dimmed item.2
  .lines (
    ["", bold (paint .white "REPL Commands:"), ""] ++
    Command.summaries.map (entry .cyan) ++
    ["", bold (paint .white "Keyboard Shortcuts:"), "",
      entry .yellow ("Ctrl+C", "Cancel current input"),
      entry .yellow ("Ctrl+D", "Exit REPL"),
      entry .yellow ("Tab", "Autocomplete"),
      ""])

def failure (text : String) : Output := .errorLine (bold (paint .red "Error") ++ ": " ++ text)

def missingArgument (command message : String) : Output :=
  failure (paint .cyan command ++ " " ++ dimmed message)

def showScope (session : Session) : Output :=
  match session.globalValues with
  | [] => .line (dimmed "(empty)")
  | bindings => .lines (bindings.map fun (name, value) =>
      "  " ++ bold (paint .white name) ++ " = " ++ showValue session.heap value)

def evaluate (session : Session) (source : String) : Output × Session :=
  let (evaluation, session) := session.eval source
  (.diagnostics evaluation.diagnostics source ++
    .line (showValue session.heap evaluation.value), session)

section

variable {m : Type → Type} [Monad m]

abbrev FileReader (m : Type → Type) := String → m (Except ReadFailure String)

def loadFile (readFile : FileReader m) (session : Session) (path : String) :
    m (Output × Session) := do
  match ← readFile path with
  | .ok source => return evaluate session source
  | .error reason => return (failure s!"cannot read {path}: {reason.message}", session)

/-- Runs a command. The session ends with the command that leaves the shell. -/
def Command.run (readFile : FileReader m) (session : Session) (command : Command)
    (argument : Option String) : m (Output × Option Session) := do
  match command, argument with
  | .help, _ => return (helpText, some session)
  | .exit, _ => return ({}, none)
  | .clear, _ => return ({ stdout := "\x1b[2J\x1b[H" }, some session)
  | .version, _ =>
    let line := bold (paint .brightCyan "heir") ++ " " ++ paint .yellow versionNumber
    return (.line line, some session)
  | .load, some path =>
    let (output, session) ← loadFile readFile session path
    return (output, some session)
  | .load, none => return (missingArgument ".load" "requires a file path", some session)
  | .bytecode, some source =>
    let compiled := session.compile source
    return ({ stdout := Code.listing compiled.code } ++
      .diagnostics compiled.diagnostics source, some session)
  | .bytecode, none =>
    return (missingArgument ".bytecode" "requires code to compile", some session)
  | .scope, _ => return (showScope session, some session)

def runEntry (readFile : FileReader m) (session : Session) (entry : List Char) :
    m (Output × Option Session) := do
  let text := Text.trim entry
  if text.isEmpty then return ({}, some session)
  match Command.read? text with
  | some (command, argument) => command.run readFile session argument
  | none =>
    let (output, session) := evaluate session (String.ofList text)
    return (output, some session)

structure Shell where
  session : Session
  /-- The lines of an entry that is not complete. -/
  entry : List Char := []

def splitEnding (line : List Char) : List Char × List Char :=
  match line.reverse with
  | '\n' :: '\r' :: rest => (rest.reverse, ['\r', '\n'])
  | '\n' :: rest => (rest.reverse, ['\n'])
  | _ => (line, [])

/-- A backspace takes the character before it away, with the marks on that character. The text so
far is held with its last character first. -/
def eraseFrom : List Char → List Char → List Char
  | kept, [] => kept.reverse
  | kept, c :: rest =>
    if c == '\x08' then eraseFrom ((kept.dropWhile Text.isExtending).drop 1) rest
    else eraseFrom (c :: kept) rest

def applyBackspaces (text : List Char) : List Char := eraseFrom [] text

namespace Shell

/-- Takes a line of input, with its ending. There is no shell after the command to leave it. -/
def feed (readFile : FileReader m) (shell : Shell) (line : String) :
    m (Output × Option Shell) := do
  let (content, ending) := splitEnding line.toList
  let entry := applyBackspaces (shell.entry ++ content)
  if isComplete entry then
    let (output, session) ← runEntry readFile shell.session entry
    return (output, session.map fun session => { session })
  else return ({}, some { shell with entry := entry ++ ending })

/-- What is shown when the input ends; an entry that is not complete is dropped. -/
def endOfInput : Output := .line (dimmed "^D")

def farewell : Output := .line ""

def transcript (readFile : FileReader m) (shell : Shell) : List String → m Output
  | [] => return endOfInput ++ farewell
  | line :: rest => do
    match ← shell.feed readFile line with
    | (output, some shell) => return output ++ (← transcript readFile shell rest)
    | (output, none) => return output ++ farewell

end Shell

end

end StackScript.Console
