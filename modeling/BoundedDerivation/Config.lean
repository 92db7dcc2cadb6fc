/-! The bounds of a search and the strictness of validation, which a grammar carries along. -/
namespace BoundedDerivation

structure Config where
  /-- Words at this depth still get successors, which must be results to count. -/
  maxDepth : Nat := 100
  maxLength : Nat := 100
  /-- Refuse matrices with undeclared symbols instead of reporting them. -/
  strictMatrices : Bool := false
  deriving DecidableEq

end BoundedDerivation
