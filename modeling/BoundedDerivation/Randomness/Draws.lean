import BoundedDerivation.Randomness.Source

/-! A source whose draws are written down beforehand. -/
namespace BoundedDerivation.Randomness

/-- The listed values in turn, then zero for ever. -/
structure Draws where
  values : List UInt32
  deriving DecidableEq

instance : Source Draws where
  next
    | ⟨[]⟩ => (0, ⟨[]⟩)
    | ⟨value :: values⟩ => (value, ⟨values⟩)
  period draws := draws.values.length + 1

/-- The zeros at the end of the list put an end to every rejection. -/
theorem isSome_belowWithin_draws (range : Nat) (values : List UInt32) :
    (belowWithin range (values.length + 1) (⟨values⟩ : Draws)).isSome := by
  induction values with
  | nil => simp [belowWithin, Source.next]
  | cons value values ih =>
    rw [List.length_cons, belowWithin]
    simp only [Source.next]
    split
    · rfl
    · exact ih

theorem isSome_below_draws (range : Nat) (source : Draws) : (below range source).isSome :=
  isSome_belowWithin_draws range source.values

end BoundedDerivation.Randomness
