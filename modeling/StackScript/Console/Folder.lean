import StackScript.Session

set_option autoImplicit false

/-!
# Folders of files

A folder held in memory, for running the shell away from a disk. Paths are taken apart at slashes; a
file is known by its path from the folder.
-/
namespace StackScript.Console

structure Folder where
  files : List (List String × String)

namespace Folder

def splitPath (path : String) : List String := path.splitOn "/"

def ofList (files : List (String × String)) : Folder :=
  ⟨files.map fun (path, text) => (splitPath path, text)⟩

def maxNameLength : Nat := 255

inductive Item where
  | file (text : String)
  | directory

def item? (folder : Folder) (path : List String) : Option Item :=
  match folder.files.lookup path with
  | some text => some (.file text)
  | none =>
    if path.isEmpty || folder.files.any (fun file => path.isPrefixOf file.1) then some .directory
    else none

/-- Follows the parts of a path from `here`, the last part of which comes first. -/
def walk (folder : Folder) : List String → List String → Except ReadFailure Item
  | here, [] =>
    match folder.item? here.reverse with
    | some item => .ok item
    | none => .error .notFound
  | here, name :: rest =>
    match folder.item? here.reverse with
    | none => .error .notFound
    | some (.file _) => .error .notADirectory
    | some .directory =>
      if name == "" || name == "." then walk folder here rest
      else if name == ".." then walk folder here.tail rest
      else if name.utf8ByteSize > maxNameLength then .error .nameTooLong
      else walk folder (name :: here) rest

/-- The text of a file. Nothing is known of what lies outside the folder. -/
def read (folder : Folder) (path : String) : Except ReadFailure String :=
  if path.toList.contains '\x00' then .error .invalidName
  else match splitPath path with
    | "" :: rest =>
      if rest.all (·.isEmpty) then .error (if rest.isEmpty then .notFound else .isADirectory)
      else .error .notFound
    | parts =>
      match folder.walk [] parts with
      | .ok (.file text) => .ok text
      | .ok .directory => .error .isADirectory
      | .error reason => .error reason

end Folder

end StackScript.Console
