import StackScript.Text.Blank

set_option autoImplicit false

/-!
# Console commands

A line that starts with a dot is a command if the word after the dot names one, in letters of either
case. What follows the word is its argument.
-/
namespace StackScript.Console

inductive Command where
  | help
  | exit
  | clear
  | version
  | load
  | bytecode
  | scope
deriving DecidableEq

namespace Command

def ofWord? (word : String) : Option Command :=
  match word with
  | "help" | "h" | "?" => some .help
  | "exit" | "quit" | "q" => some .exit
  | "clear" | "cls" => some .clear
  | "version" | "v" => some .version
  | "load" | "l" => some .load
  | "bytecode" | "bc" => some .bytecode
  | "scope" | "s" => some .scope
  | _ => none

def read? (line : List Char) : Option (Command × Option String) :=
  match Text.trim line with
  | '.' :: rest => do
    let word := rest.takeWhile fun c => !Text.isBlank c
    let command ← ofWord? (String.ofList (word.map Char.toLower))
    let argument := Text.trim (rest.drop word.length)
    return (command, if argument.isEmpty then none else some (String.ofList argument))
  | _ => none

def summaries : List (String × String) := [
  (".help", "Show this help message"),
  (".exit", "Exit the REPL"),
  (".clear", "Clear the screen"),
  (".version", "Show version information"),
  (".load <file>", "Load and execute a Heir file"),
  (".bytecode <code>", "Show the bytecode for a snippet"),
  (".scope", "List global variables")]

def words : List String :=
  summaries.map fun summary => String.ofList (summary.1.toList.takeWhile (· != ' '))

end Command

end StackScript.Console
