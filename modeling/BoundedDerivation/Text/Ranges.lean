import BoundedDerivation.Text.Blank

/-! Sets of characters, given by ranges of code points. -/
namespace BoundedDerivation.Text

/-- Each range is given by its first and its last code point. -/
abbrev Ranges := List (Nat × Nat)

namespace Ranges

def covers (ranges : Ranges) (c : Char) : Bool :=
  ranges.any fun (first, last) => first ≤ c.toNat && c.toNat ≤ last

/-- No range is empty, and each one starts beyond the code point that follows the one before. -/
def isAscending : Ranges → Bool
  | [] => true
  | [(first, last)] => first ≤ last
  | (first, last) :: (next, stop) :: ranges =>
    first ≤ last && last + 1 < next && isAscending ((next, stop) :: ranges)

/-- The number of code points in ranges that do not overlap. -/
def count (ranges : Ranges) : Nat :=
  ranges.foldr (fun (first, last) later => last + 1 - first + later) 0

end Ranges
end BoundedDerivation.Text
