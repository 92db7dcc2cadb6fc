import BoundedDerivation.CommandLine.Arguments
import BoundedDerivation.Grammar.Display
import BoundedDerivation.Json.Writer
import BoundedDerivation.Search.Derive

/-! What a run that derives words prints: the grammar, then either the derivations asked for or
the message that there is none. -/
namespace BoundedDerivation.CommandLine
open Randomness

inductive Line where
  | grammar (grammar : Grammar)
  | derivation (derivation : Derivation)
  /-- One of several derivations, with its number. -/
  | numbered (number : Nat) (derivation : Derivation)
  | json (derivation : Derivation)
  | failure (target : Target)

def Line.write : Line → Text
  | .grammar shown => shown.display ++ "\n\n".toList
  | .derivation shown => "Derivation:\n".toList ++ shown.display ++ ['\n']
  | .numbered number shown => Text.ofNat number ++ ". ".toList ++ shown.display ++ ['\n']
  | .json shown => shown.encode.compact ++ ['\n']
  | .failure target => ("No word of " ++ target.display ++ " is derivable within bounds.\n").toList

namespace Options

def config (options : Options) : Config :=
  let standard : Config := {}
  { maxDepth := (options.get .maxDepth).getD standard.maxDepth
    maxLength := (options.get .maxLength).getD standard.maxLength
    strictMatrices := options.has .strictMatrices }

def target (options : Options) : Target := .ofNat ((options.get .length).getD 0)

def count (options : Options) : Nat := (options.get .count).getD 1

/-- How a derivation is printed: as JSON, or with its number where there are several. -/
def line (options : Options) (number : Nat) (derivation : Derivation) : Line :=
  if options.has .json then .json derivation
  else if 1 < options.count then .numbered number derivation
  else .derivation derivation

end Options

variable {σ : Type} [Source σ]

/-- Derives again and again, each time from where the random source was left, until enough
derivations are printed or one fails. None if the random source gives out. -/
def deriveLines (options : Options) (grammar : Grammar) (number : Nat) :
    Nat → σ → Option (List Line)
  | 0, _ => some []
  | left + 1, source =>
    match grammar.derive options.target source with
    | none => none
    | some ⟨none, _, _⟩ => some [.failure options.target]
    | some ⟨some derivation, source, _⟩ =>
      (deriveLines options grammar (number + 1) left source).map
        (options.line number derivation :: ·)

/-- All lines of a run on a grammar that could be loaded. -/
def report (options : Options) (grammar : Grammar) (source : σ) : Option (List Line) :=
  (deriveLines options grammar 1 options.count source).map fun lines =>
    if options.has .quiet then lines else .grammar grammar :: lines

end BoundedDerivation.CommandLine
