import BoundedDerivation.LineForm.Item
import BoundedDerivation.Text.Pattern

/-! Rules read by a pattern: blanks, a left side without blanks, blanks, an arrow, blanks, a right
side on the same line, blanks. The pattern alone says where an item is cut. -/
namespace BoundedDerivation.LineForm
open Text

def blanks : Pattern := .many isBlank

def leftSide : Pattern := .group (.sequence (.one (!isBlank ·)) (.many (!isBlank ·)))

def rightSide : Pattern := .group (.few (· ≠ '\n'))

def afterArrow : Pattern :=
  .sequence blanks (.sequence rightSide (.sequence blanks .atEnd))

def fromArrow : Pattern :=
  .sequence (.one (· = '-')) (.sequence (.one (· = '>')) afterArrow)

def rulePattern : Pattern :=
  .sequence blanks (.sequence leftSide (.sequence blanks fromArrow))

/-- An item of a line with the given number, read as a rule by the two groups of the pattern. -/
def matchRule (line : Nat) (item : Text) : Except GrammarError Rule :=
  match rulePattern.captures item with
  | some [before, right] => do
    let left ← readSymbol before
    if right = [] then
      throw (.emptyProduction item)
    return ⟨left, right⟩
  | _ => .error (.malformedRule line item)

def matchRules (line : Nat) (text : Text) : Except GrammarError (List Rule) :=
  (items ';' text).mapM (matchRule line)

end BoundedDerivation.LineForm
