import StackScript.Tree.Parse
import StackScript.Binding.Bind
import StackScript.Code.Generate
import StackScript.Machine.Step

set_option autoImplicit false

/-!
# Sessions

A session evaluates one source text after another. It keeps the global declarations and the global
scope, so that later texts can use what earlier ones declared. A text runs even if something was
reported while it was compiled.
-/
namespace StackScript

/-- Code with what was reported on the way to it, and the declarations known after it. -/
structure Compiled where
  code : Code
  diagnostics : List Diagnostic
  globals : Globals

def Globals.compile (globals : Globals) (source : String) : Compiled :=
  let read := SyntaxTree.read source
  let binding := Globals.bind globals read.tree
  { code := read.tree.code binding.bound
    diagnostics := read.diagnostics ++ binding.diagnostics ++ read.tree.gaps binding.bound
    globals := binding.globals }

structure Evaluation where
  value : Value
  diagnostics : List Diagnostic

namespace Evaluation

def errorCount (evaluation : Evaluation) : Nat := evaluation.diagnostics.countP (·.isError)

def hasErrors (evaluation : Evaluation) : Bool := evaluation.diagnostics.any (·.isError)

/-- The value, unless an error was reported. -/
def result (evaluation : Evaluation) : Except String Value :=
  if evaluation.hasErrors then
    .error s!"evaluation failed with {evaluation.errorCount} error(s)"
  else .ok evaluation.value

end Evaluation

inductive ReadFailure where
  | notFound
  | notADirectory
  | isADirectory
  | nameTooLong
  | invalidName
  | notText
  | other (message : String)

def ReadFailure.message : ReadFailure → String
  | .notFound => "No such file or directory (os error 2)"
  | .notADirectory => "Not a directory (os error 20)"
  | .isADirectory => "Is a directory (os error 21)"
  | .nameTooLong => "File name too long (os error 36)"
  | .invalidName => "file name contained an unexpected NUL byte"
  | .notText => "stream did not contain valid UTF-8"
  | .other message => message

def decodeSource (bytes : ByteArray) : Except ReadFailure String :=
  match String.fromUTF8? bytes with
  | some text => .ok text
  | none => .error .notText

structure Session where
  globals : Globals := NameTable.empty
  heap : Heap := Heap.withGlobalScope
  limits : Limits := {}

namespace Session

def globalScope : Nat := 0

/-- Declarations in a text that is only compiled stay unknown to the session. -/
def compile (session : Session) (source : String) : Compiled := session.globals.compile source

/-- Evaluates a source text, if that takes no more than `fuel` steps. -/
def evalWithin (fuel : Nat) (session : Session) (source : String) :
    Option (Evaluation × Session) :=
  let compiled := session.globals.compile source
  let machine := Machine.load compiled.code globalScope session.heap
  (machine.run session.limits fuel).map fun outcome =>
    ({ value := outcome.value
       diagnostics := compiled.diagnostics ++ outcome.machine.log.toList },
     { session with globals := compiled.globals, heap := outcome.machine.heap })

/-- Evaluates a source text. One that outlasts all patience comes to nothing. -/
def eval (session : Session) (source : String) : Evaluation × Session :=
  (session.evalWithin Machine.patience source).getD (⟨.none, []⟩, session)

def lookup (session : Session) (name : String) : Value := session.heap.lookup globalScope name

def isDeclared (session : Session) (name : String) : Bool :=
  session.heap.isDeclared globalScope name

def define (session : Session) (name : String) (value : Value) : Session :=
  { session with heap := session.heap.define globalScope name value }

def globalValues (session : Session) : List (String × Value) :=
  (session.heap.scope globalScope).bindings.sorted

end Session

end StackScript
