import BoundedDerivation.Text.Blank

/-! Paths: the names that lead to a file or to a directory. -/
namespace BoundedDerivation

structure Path where
  fromRoot : Bool
  /-- None of the names is empty. One dot stays in place and two dots lead one level up. -/
  names : List Text
  /-- A slash at the end asks for a directory. -/
  asksDirectory : Bool
  deriving DecidableEq

namespace Path

def here : Text := ['.']

def up : Text := ['.', '.']

def ofText (text : Text) : Path :=
  { fromRoot := text.head? = some '/'
    names := (text.splitOn '/').filter (· ≠ [])
    asksDirectory := text.getLast? = some '/' }

/-- The last name; names that stay in place do not count. -/
def fileName (path : Path) : Text := (path.names.filter (· ≠ here)).getLastD []

/-- What follows the last dot of the file name, unless nothing stands before that dot. -/
def extension (path : Path) : Option Text :=
  let name := path.fileName.reverse
  match name.dropWhile (· ≠ '.') with
  | _ :: _ :: _ => some (name.takeWhile (· ≠ '.')).reverse
  | _ => none

/-- The most bytes that a path and a name in it may have. -/
def longestPath : Nat := 4095

def longestName : Nat := 255

def byteLength (text : Text) : Nat := (String.ofList text).utf8ByteSize

end Path
end BoundedDerivation
