import BoundedDerivation.Error
import BoundedDerivation.Path

/-! The disk as far as the command line deals with it: what stands at which place, and the way that
a path takes to a place. -/
namespace BoundedDerivation.CommandLine

inductive Entry where
  | file (content : Except FileFault Text)
  /-- A file that stays empty, whatever is written to it. -/
  | sink
  | directory

/-- A place is given by the names that lead to it from the root of the system. -/
abbrev Place := List Text

/-- Entries at their places, the later ones first. The directories on the way to an entry and to the
working directory are there without being listed. -/
structure Disk where
  entries : List (Place × Entry)
  working : Place

namespace Disk

def find (disk : Disk) (place : Place) : Option Entry :=
  match disk.entries.lookup place with
  | some entry => some entry
  | none =>
    if (disk.working :: disk.entries.map (·.1)).any place.isPrefixOf then some .directory else none

/-- The place that a name means in a directory. The root has no level above it. -/
def step (place : Place) (name : Text) : Except FileFault Place :=
  if name = Path.here then .ok place
  else if name = Path.up then .ok place.dropLast
  else if Path.longestName < Path.byteLength name then .error .nameTooLong
  else .ok (place ++ [name])

/-- The directory that names lead to, through directories alone. -/
def walk (disk : Disk) (place : Place) : List Text → Except FileFault Place
  | [] => .ok place
  | name :: names => do
    let next ← step place name
    match disk.find next with
    | none => .error .notFound
    | some .directory => disk.walk next names
    | some _ => .error .notDirectory

/-- The directory in which the last name of a path is looked up. -/
def enclosing (disk : Disk) (text : Text) : Except FileFault Place :=
  let path := Path.ofText text
  if text = [] then .error .notFound
  else if Path.longestPath < Path.byteLength text then .error .nameTooLong
  else disk.walk (if path.fromRoot then [] else disk.working) path.names.dropLast

def read (disk : Disk) (text : Text) : Except FileFault Text := do
  let path := Path.ofText text
  let place ← disk.enclosing text
  match disk.find (← step place (path.names.getLastD Path.here)) with
  | none => .error .notFound
  | some .directory => .error .isDirectory
  | some .sink => if path.asksDirectory then .error .notDirectory else .ok []
  | some (.file content) => if path.asksDirectory then .error .notDirectory else content

/-- A file may be written where its directory exists, unless the path asks for a directory or
leads to one. -/
def write (disk : Disk) (text content : Text) : Except FileFault Disk := do
  let path := Path.ofText text
  let place ← disk.enclosing text
  if path.asksDirectory then .error .isDirectory
  else
    let place ← step place (path.names.getLastD Path.here)
    match disk.find place with
    | some .directory => .error .isDirectory
    | some .sink => .ok disk
    | _ => .ok { disk with entries := (place, .file (.ok content)) :: disk.entries }

end Disk
end BoundedDerivation.CommandLine
