import BoundedDerivation.CommandLine.Disk

/-! A folder on its own: the working directory of a disk that holds nothing else, except for the file
that every system has. -/
namespace BoundedDerivation.CommandLine

/-- Entries under their paths in the folder, the later ones first. -/
structure Folder where
  entries : List (List Text × Entry)

namespace Folder

/-- The names under which the folder lists what a path from it means. -/
def names (path : Text) : List Text :=
  (Path.ofText path).names.foldl
    (fun names name =>
      if name = Path.here then names
      else if name = Path.up then names.dropLast
      else names ++ [name]) []

def ofList (entries : List (Text × Entry)) : Folder :=
  ⟨entries.reverse.map fun (path, entry) => (names path, entry)⟩

/-- The folder has a place without a name among the temporary ones. -/
def home : Place := ["tmp".toList, []]

def disk (folder : Folder) : Disk where
  entries := folder.entries.map (fun (names, entry) => (home ++ names, entry)) ++
    [(["dev".toList, "null".toList], .sink)]
  working := home

/-- What a disk holds in the place of the folder. -/
def ofDisk (disk : Disk) : Folder :=
  ⟨disk.entries.filterMap fun (place, entry) =>
    if home.isPrefixOf place then some (place.drop home.length, entry) else none⟩

def read (folder : Folder) (path : Text) : Except FileFault Text := folder.disk.read path

end Folder
end BoundedDerivation.CommandLine
