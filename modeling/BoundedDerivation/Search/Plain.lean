import BoundedDerivation.Search.Memory

/-! The plainest search there is: depth first, in an order of the candidates that depends on
nothing but their word, with nothing remembered and only overlong words left out. -/
namespace BoundedDerivation.Search

/-- The words from `word` to the first result below it, if there is one. -/
def plainDescend (problem : Problem) (order : Word → List Word) (depth : Nat) (word : Word) :
    Option (List Word) :=
  if problem.isResult word then some [word]
  else if _h : problem.maxDepth < depth then none
  else
    ((order word).findSome? fun candidate =>
      if problem.grammar.config.maxLength < candidate.length then none
      else plainDescend problem order (depth + 1) candidate).map (word :: ·)
termination_by problem.maxDepth + 1 - depth
decreasing_by omega

def plainDerive (problem : Problem) (order : Word → List Word) (start : Word) :
    Option Derivation :=
  (plainDescend problem order 0 start).map Derivation.mk

end BoundedDerivation.Search
