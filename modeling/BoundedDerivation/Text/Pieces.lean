import BoundedDerivation.Text.Blank

/-! Texts made of pieces: lines, items between separators, and their reassembly. -/
namespace BoundedDerivation.Text

/-- A line feed ends a line, so one that closes the text does not open another line. -/
def lines (text : Text) : List Text :=
  let pieces := text.splitOn '\n'
  if pieces.getLast? = some [] then pieces.dropLast else pieces

/-- The trimmed pieces between separators, those without content left out. -/
def items (separator : Char) (text : Text) : List Text :=
  ((text.splitOn separator).map trim).filter (· ≠ [])

def join (separator : Text) (pieces : List Text) : Text := separator.intercalate pieces

def ofNat (n : Nat) : Text := Nat.toDigits 10 n

end BoundedDerivation.Text
