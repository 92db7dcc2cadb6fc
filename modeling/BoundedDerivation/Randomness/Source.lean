/-! Sources of random 32-bit numbers, and a fair choice below a bound by rejection: a draw is
scaled into the range, and draws from the uneven end of the scale are thrown away. -/
namespace BoundedDerivation.Randomness

/-- A source turns its state into a draw and the next state. Every value that it still has to
give turns up within its `period`, so a rejection that outlasts the period never ends. -/
class Source (σ : Type) where
  next : σ → UInt32 × σ
  period : σ → Nat

variable {σ : Type} [Source σ]

/-- The largest remainder that is accepted: the accepted draws are the multiple of `range`, by a
power of two, that lies in the upper half of the 32-bit numbers, spread evenly over the scale. -/
def zone (range : Nat) : Nat := range <<< (31 - range.log2) - 1

/-- What a draw decides about a choice below `range`, if it is not thrown away. -/
def accept (range : Nat) (draw : UInt32) : Option Nat :=
  let scaled := draw.toNat * range
  if scaled % UInt32.size ≤ zone range then some (scaled / UInt32.size) else none

/-- A draw of zero is never thrown away. -/
@[simp] theorem accept_zero (range : Nat) : accept range 0 = some 0 := by simp [accept]

def belowWithin (range : Nat) : Nat → σ → Option (Nat × σ)
  | 0, _ => none
  | tries + 1, source =>
    match accept range (Source.next source).1 with
    | some choice => some (choice, (Source.next source).2)
    | none => belowWithin range tries (Source.next source).2

/-- A choice below `range`; none if every draw that the source can give is thrown away. -/
def below (range : Nat) (source : σ) : Option (Nat × σ) :=
  belowWithin range (Source.period source) source

end BoundedDerivation.Randomness
