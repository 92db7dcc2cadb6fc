import BoundedDerivation.Randomness.ChaCha
import BoundedDerivation.Randomness.Draws
import BoundedDerivation.Randomness.SplitMix

/-! The sources to choose from, behind one type, and a source that counts what is drawn from it. -/
namespace BoundedDerivation.Randomness

inductive Generator where
  | draws (source : Draws)
  | splitMix (source : SplitMix)
  | chaCha (source : ChaCha)
  deriving DecidableEq

instance : Source Generator where
  next
    | .draws source => let (draw, source) := Source.next source; (draw, .draws source)
    | .splitMix source => let (draw, source) := Source.next source; (draw, .splitMix source)
    | .chaCha source => let (draw, source) := Source.next source; (draw, .chaCha source)
  period
    | .draws source => Source.period source
    | .splitMix source => Source.period source
    | .chaCha source => Source.period source

structure Counted (σ : Type) where
  source : σ
  drawn : Nat

instance {σ : Type} [Source σ] : Source (Counted σ) where
  next counted :=
    let (draw, source) := Source.next counted.source
    (draw, ⟨source, counted.drawn + 1⟩)
  period counted := Source.period counted.source

end BoundedDerivation.Randomness
