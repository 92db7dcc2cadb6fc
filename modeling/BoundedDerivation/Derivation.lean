import BoundedDerivation.Json.Value
import BoundedDerivation.Word

/-! Derivations: the words that lead from a start word to a derived one, in order. -/
namespace BoundedDerivation

structure Derivation where
  words : List Word
  deriving DecidableEq

namespace Derivation

/-- The derived word; a derivation without words derives the empty one. -/
def result (derivation : Derivation) : Word := derivation.words.getLastD []

def steps (derivation : Derivation) : Nat := derivation.words.length - 1

def display (derivation : Derivation) : Text := " => ".toList.intercalate derivation.words

def encode (derivation : Derivation) : Json :=
  .object [("words".toList, .array (derivation.words.map .string))]

end Derivation
end BoundedDerivation
