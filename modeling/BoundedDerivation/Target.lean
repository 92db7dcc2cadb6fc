import BoundedDerivation.Word

/-! What a search is for: a terminal word of any length, or of one given length. -/
namespace BoundedDerivation

inductive Target where
  | any
  | exactly (length : Nat)
  deriving DecidableEq

namespace Target

/-- Where lengths are given as plain numbers, zero asks for any length. -/
def ofNat : Nat → Target
  | 0 => any
  | n + 1 => exactly (n + 1)

/-- The length beyond which no word is worth having, given the bound on all words. -/
def lengthLimit (maxLength : Nat) : Target → Nat
  | any => maxLength
  | exactly n => min n maxLength

def admits (word : Word) : Target → Bool
  | any => true
  | exactly n => word.length == n

def display : Target → String
  | any => "any length"
  | exactly n => s!"length {n}"

end Target
end BoundedDerivation
