import BoundedDerivation.Word

/-! A single rule: one symbol on the left, a word on the right. -/
namespace BoundedDerivation

structure Rule where
  left : Char
  right : Word
  deriving DecidableEq

namespace Rule

def apply (rule : Rule) (word : Word) : Option Word := word.replaceFirst rule.left rule.right

/-- The form in which rules are written down: no space around the arrow. -/
def written (rule : Rule) : List Char := rule.left :: '-' :: '>' :: rule.right

end Rule
end BoundedDerivation
