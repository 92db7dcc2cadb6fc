import BoundedDerivation.Search.Stack

/-! Asking for derivations: the answer of a search, and what it has to tell. -/
namespace BoundedDerivation

/-- The outcome of one search. Its derivation is the trace of a search that has found a result. -/
structure Outcome (σ : Type) where
  derivation : Option Derivation
  source : σ
  events : List Event

namespace Grammar
open Randomness Search

variable {σ : Type} [Source σ]

/-- The events of a search, from its announcement to its verdict. -/
def searchEvents (grammar : Grammar) (start : Word) (target : Target)
    (derivation : Option Derivation) (memory : Memory σ) : List Event :=
  let verdict := match derivation with
    | some derivation => .found derivation.steps memory.visited derivation.result
    | none => .notFound memory.visited
  .searchStarted grammar.kind start target grammar.config ::
    (memory.history.reverse.filterMap Note.event? ++ [verdict])

/-- Looks for a derivation from any start word. No outcome at all means that the random source
gave out within a shuffle; an outcome without derivation, that there is none within the bounds. -/
def deriveFrom (grammar : Grammar) (start : Word) (target : Target) (source : σ) :
    Option (Outcome σ) := do
  let (success, memory) ← explore ⟨grammar, target⟩ start (Memory.initial start source)
  let derivation := if success then some ⟨memory.trace.toList⟩ else none
  return ⟨derivation, memory.source, grammar.searchEvents start target derivation memory⟩

def derive (grammar : Grammar) (target : Target) (source : σ) : Option (Outcome σ) :=
  grammar.deriveFrom grammar.startWord target source

end Grammar
end BoundedDerivation
