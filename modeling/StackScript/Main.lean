import StackScript.Console.Run

set_option autoImplicit false

/-!
# The executable

Connects the program to the terminal, the environment and the disk.
-/
namespace StackScript

open Console

def write (output : Output) : IO Unit := do
  let stdout ← IO.getStdout
  let stderr ← IO.getStderr
  stdout.putStr output.stdout
  stdout.flush
  stderr.putStr output.stderr
  stderr.flush

def readFailure (error : IO.Error) : ReadFailure :=
  match error with
  | .noFileOrDirectory _ _ _ => .notFound
  | .inappropriateType _ 20 _ => .notADirectory
  | .inappropriateType _ _ _ => .isADirectory
  | error => .other (toString error)

def readSource (path : String) : IO (Except ReadFailure String) := do
  try
    return decodeSource (← IO.FS.readBinFile path)
  catch error => return .error (readFailure error)

/-- Takes lines until the input ends or the shell is left. -/
partial def interact (shell : Shell) : IO Unit := do
  let line ← (← IO.getStdin).getLine
  if line.isEmpty then
    write (Shell.endOfInput ++ Shell.farewell)
  else
    match ← shell.feed readSource line with
    | (output, some shell) =>
      write output
      interact shell
    | (output, none) => write (output ++ Shell.farewell)

def environment : IO (List (String × String)) :=
  environmentSettings.filterMapM fun (_, name) => do
    return (← IO.getEnv name).map fun value => (name, value)

end StackScript

def main (arguments : List String) : IO UInt32 := do
  let opening ← StackScript.Console.answer StackScript.readSource arguments
    (← StackScript.environment)
  StackScript.write opening.report.output
  match opening.shell with
  | some shell => StackScript.interact shell
  | none => pure ()
  return opening.report.exit
