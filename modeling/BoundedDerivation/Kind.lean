/-! The two kinds of grammar and the names they go by. -/
namespace BoundedDerivation

/-- Context-free grammars replace one nonterminal a step; matrix grammars apply a whole group of
rules a step, all of them or none. -/
inductive Kind where
  | contextFree
  | matrix
  deriving DecidableEq

namespace Kind

def name : Kind → String
  | contextFree => "CFG"
  | matrix => "MG"

end Kind
end BoundedDerivation
