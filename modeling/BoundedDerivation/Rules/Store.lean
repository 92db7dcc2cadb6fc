import BoundedDerivation.Rules.ContextFree
import BoundedDerivation.Rules.Matrix

/-! The rules of a grammar of either kind. -/
namespace BoundedDerivation
open Randomness

inductive RuleStore where
  | contextFree (rules : ContextFreeRules)
  | matrix (rules : MatrixRules)
  deriving DecidableEq

namespace RuleStore

def kind : RuleStore → Kind
  | contextFree _ => .contextFree
  | matrix _ => .matrix

/-- How many rules or matrices there are. -/
def size : RuleStore → Nat
  | contextFree rules => rules.size
  | matrix rules => rules.size

def isEmpty (store : RuleStore) : Bool := store.size == 0

def validate (alphabet : Alphabet) (strictMatrices : Bool) : RuleStore → Checked Unit
  | contextFree rules => .ofExcept (rules.validate alphabet)
  | matrix rules => rules.validate alphabet strictMatrices

/-- Every word one step away, in the order of declaration. -/
def successors (alphabet : Alphabet) (word : Word) : RuleStore → List Word
  | contextFree rules => rules.successors alphabet word
  | matrix rules => rules.successors word

/-- Every word one step away, in random order. -/
def candidates {σ : Type} [Source σ] (alphabet : Alphabet) (word : Word) (source : σ) :
    RuleStore → Option (List Word × σ)
  | contextFree rules => rules.candidates alphabet word source
  | matrix rules => rules.candidates word source

end RuleStore
end BoundedDerivation
