import BoundedDerivation.Derivation
import BoundedDerivation.Rules.Store

/-! Grammars: an alphabet, a start symbol and rules of one kind, with the configuration under
which they are validated and searched. -/
namespace BoundedDerivation

structure Grammar where
  alphabet : Alphabet
  start : Char
  rules : RuleStore
  config : Config
  deriving DecidableEq

namespace Grammar

def kind (grammar : Grammar) : Kind := grammar.rules.kind

/-- The word that every derivation of the grammar starts from. -/
def startWord (grammar : Grammar) : Word := [grammar.start]

def validate (grammar : Grammar) : Checked Unit := do
  grammar.alphabet.validate
  if !grammar.alphabet.isNonterminal grammar.start then
    Checked.fail (.invalidStart grammar.start)
  grammar.rules.validate grammar.alphabet grammar.config.strictMatrices

/-- A grammar from its parts, whatever alphabet its rules were checked against before. -/
def ofParts (alphabet : Alphabet) (start : Char) (rules : RuleStore) (config : Config) :
    Checked Grammar := do
  let grammar : Grammar := ⟨alphabet, start, rules, config⟩
  grammar.validate
  return grammar

/-- Puts another configuration into the place of the grammar's own one and validates the outcome. If
that fails, the grammar gets its own one back. -/
def exchangeConfig (grammar : Grammar) (config : Config) : Grammar × Checked Unit :=
  let changed := { grammar with config }
  let verdict := changed.validate
  match verdict.result with
  | .ok () => (changed, verdict)
  | .error _ => ({ changed with config := grammar.config }, verdict)

/-- The same grammar under another configuration, if it is valid under that one. -/
def setConfig (grammar : Grammar) (config : Config) : Checked Grammar := do
  let (changed, verdict) := grammar.exchangeConfig config
  verdict
  return changed

def successors (grammar : Grammar) (word : Word) : List Word :=
  grammar.rules.successors grammar.alphabet word

/-- The words one step away in the order in which a search tries them. -/
def candidates {σ : Type} [Randomness.Source σ] (grammar : Grammar) (word : Word) (source : σ) :
    Option (List Word × σ) :=
  grammar.rules.candidates grammar.alphabet word source

/-- Checks that each word follows from the one before it, counting steps from `step`. -/
def checkSteps (grammar : Grammar) : Nat → List Word → Except DerivationFault Unit
  | step, before :: after :: rest =>
    if after ∈ grammar.successors before then checkSteps grammar (step + 1) (after :: rest)
    else .error (.wrongStep step before after)
  | _, _ => .ok ()

/-- A derivation is licensed if it starts at the start symbol, takes one step from each word to
the next and ends in a terminal word. -/
def checkWords (grammar : Grammar) (derivation : Derivation) : Except DerivationFault Unit := do
  match derivation.words with
  | [] => throw .noWords
  | first :: _ =>
    if first ≠ grammar.startWord then
      throw (.wrongStart first grammar.start)
    checkSteps grammar 1 derivation.words
    if !grammar.alphabet.isTerminalWord derivation.result then
      throw (.notTerminal derivation.result)

def checkDerivation (grammar : Grammar) (derivation : Derivation) : Except GrammarError Unit :=
  (grammar.checkWords derivation).mapError .invalidDerivation

end Grammar
end BoundedDerivation
