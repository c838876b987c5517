import StackScript.Console.Arguments
import StackScript.Console.Shell
import StackScript.Tree.Outline

set_option autoImplicit false

/-!
# The program

The program runs code from the command line or from a file, then the shell if it is asked for. Its
exit code tells whether all went well.
-/
namespace StackScript.Console

structure Report where
  exit : UInt32
  output : Output := {}

def versionText : String := "heir " ++ versionNumber

def usageText : String := "heir [OPTIONS] [FILE]"

def helpLines : List String := [
  "The Heir language: bytecode compiler and virtual machine",
  "",
  "Usage: " ++ usageText,
  "",
  "Arguments:",
  "  [FILE]  Source file to execute",
  "",
  "Options:",
  "  -e, --eval <CODE>         Evaluate code from the command line",
  "  -i, --interactive         Start the REPL after running FILE or CODE",
  "      --dump-bytecode       Print the bytecode listing before running",
  "      --dump-ast            Print the syntax tree before running",
  "      --verbose             Enable verbose logging",
  "      --max-call-depth <N>  Maximum function call depth [env: HEIR_MAX_CALL_DEPTH=]",
  "      --step-limit <N>      Abort after executing this many instructions " ++
    "[env: HEIR_STEP_LIMIT=]",
  "      --history <PATH>      REPL history file [env: HEIR_HISTORY=]",
  "  -h, --help                Print help",
  "  -V, --version             Print version"]

def usageReport (error : UsageError) : Report where
  exit := 2
  output := .errorLine (
    "error: " ++ error.message ++ "\n\nUsage: " ++ usageText ++
      "\n\nFor more information, try '--help'.")

/-- The dumps that were asked for, the diagnostics, and the value. -/
def runSource (invocation : Invocation) (session : Session) (source : String) :
    Evaluation × Output × Session :=
  let tree := if invocation.has .dumpTree then
      Output.line (SyntaxTree.read source).tree.outline.text
    else {}
  let listing : Output := if invocation.has .dumpCode then
      { stdout := Code.listing (session.compile source).code }
    else {}
  let (evaluation, session) := session.eval source
  (evaluation,
    tree ++ listing ++ .diagnostics evaluation.diagnostics source ++
      .line evaluation.value.display,
    session)

/-- The program before the shell: its report, and the session to go on with in the shell. -/
structure Opening where
  report : Report
  shell : Option Shell := none

def unreadable (path : String) (reason : ReadFailure) : Output :=
  .errorLine (s!"Error: cannot read {path}\n\nCaused by:\n    {reason.message}")

def openWith (invocation : Invocation) (session : Session) (exit : UInt32) (output : Output) :
    Opening :=
  if invocation.isInteractive then ⟨⟨exit, output ++ greeting⟩, some { session }⟩
  else ⟨⟨exit, output⟩, none⟩

def openSource (invocation : Invocation) (session : Session) (source : String) : Opening :=
  let (evaluation, output, session) := runSource invocation session source
  openWith invocation session (if evaluation.hasErrors then 1 else 0) output

section

variable {m : Type → Type} [Monad m]

/-- Everything up to the first line of the shell. -/
def begin (readFile : FileReader m) (invocation : Invocation) : m Opening := do
  let session : Session := { limits := invocation.limits }
  match invocation.code, invocation.file with
  | some source, _ => return openSource invocation session source
  | none, none => return openWith invocation session 0 {}
  | none, some path =>
    match ← readFile path with
    | .ok source => return openSource invocation session source
    | .error reason => return { report := { exit := 1, output := unreadable path reason } }

def answer (readFile : FileReader m) (arguments : List String)
    (environment : List (String × String)) : m Opening := do
  match Request.read arguments environment with
  | .error error => return { report := usageReport error }
  | .ok .help => return { report := { exit := 0, output := .lines helpLines } }
  | .ok .version => return { report := { exit := 0, output := .line versionText } }
  | .ok (.run invocation) => begin readFile invocation

def run (readFile : FileReader m) (arguments : List String) (environment : List (String × String))
    (input : List String) : m Report := do
  let opening ← answer readFile arguments environment
  match opening.shell with
  | none => return opening.report
  | some shell =>
    let output ← shell.transcript readFile input
    return { opening.report with output := opening.report.output ++ output }

end

/-- The lines of a text with their endings, after the characters of an unfinished one, the last of
them first. -/
def linesFrom : List Char → List Char → List String
  | [], [] => []
  | line, [] => [String.ofList line.reverse]
  | line, c :: rest =>
    if c == '\n' then String.ofList (c :: line).reverse :: linesFrom [] rest
    else linesFrom (c :: line) rest

def linesOf (text : String) : List String := linesFrom [] text.toList

end StackScript.Console
