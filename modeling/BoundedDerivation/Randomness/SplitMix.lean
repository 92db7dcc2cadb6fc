import BoundedDerivation.Randomness.Source

/-! The SplitMix generator: a counter with an odd stride, scrambled into each draw. -/
namespace BoundedDerivation.Randomness

structure SplitMix where
  state : UInt64
  deriving DecidableEq

namespace SplitMix

/-- Spreads every bit of the counter over the whole word. -/
def scramble (z : UInt64) : UInt64 :=
  let z := (z ^^^ (z >>> 30)) * 0xBF58476D1CE4E5B9
  let z := (z ^^^ (z >>> 27)) * 0x94D049BB133111EB
  z ^^^ (z >>> 31)

/-- The stride is odd, so the counter passes through all of its `2 ^ 64` states. -/
instance : Source SplitMix where
  next source :=
    let state := source.state + 0x9E3779B97F4A7C15
    ((scramble state >>> 32).toUInt32, ⟨state⟩)
  period _ := UInt64.size

end SplitMix
end BoundedDerivation.Randomness
