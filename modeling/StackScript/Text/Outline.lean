set_option autoImplicit false

/-!
# Outlines

An outline shows nested data over many lines: what is inside something stands four spaces further to
the right, one item a line, each followed by a comma.
-/
namespace StackScript.Text

inductive Outline where
  | atom (text : String)
  | tuple (name : String) (items : List Outline)
  | record (name : String) (fields : List (String × Outline))
  | list (items : List Outline)
deriving Inhabited

namespace Outline

def margin (depth : Nat) : String := String.ofList (List.replicate (4 * depth) ' ')

def between (depth : Nat) (first lines last : String) : String :=
  first ++ "\n" ++ lines ++ margin depth ++ last

mutual

def write (depth : Nat) : Outline → String
  | .atom text => text
  | .tuple name items => between depth (name ++ "(") (writeItems (depth + 1) items) ")"
  | .record name fields =>
    between depth (name ++ " \x7b") (writeFields (depth + 1) fields) "\x7d"
  | .list [] => "[]"
  | .list (item :: rest) => between depth "[" (writeItems (depth + 1) (item :: rest)) "]"
termination_by structural outline => outline

def writeItems (depth : Nat) : List Outline → String
  | [] => ""
  | item :: rest => margin depth ++ write depth item ++ ",\n" ++ writeItems depth rest
termination_by structural items => items

def writeFields (depth : Nat) : List (String × Outline) → String
  | [] => ""
  | (name, value) :: rest =>
    margin depth ++ name ++ ": " ++ write depth value ++ ",\n" ++ writeFields depth rest
termination_by structural fields => fields

end

def text (outline : Outline) : String := outline.write 0

def option : Option Outline → Outline
  | some item => .tuple "Some" [item]
  | none => .atom "None"

end Outline

end StackScript.Text
