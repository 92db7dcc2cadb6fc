import BoundedDerivation.Symbol
import BoundedDerivation.Text.Pieces

/-! Rules and symbols as items of a line. An item is cut at an arrow: at the one that follows its
first run of non-blank characters, if one does, and otherwise at the last one inside that run. -/
namespace BoundedDerivation.LineForm

/-- Cuts a text at its last arrow. -/
def cutLastArrow : Text → Option (Text × Text)
  | [] => none
  | c :: rest =>
    match cutLastArrow rest with
    | some (before, after) => some (c :: before, after)
    | none => match c, rest with
      | '-', '>' :: after => some ([], after)
      | _, _ => none

/-- Cuts a trimmed item into what stands before and after its arrow. An arrow at the very start
does not count, since it would leave nothing on its left. -/
def cutItem (item : Text) : Option (Text × Text) :=
  let run := item.takeWhile (!Text.isBlank ·)
  let later := item.dropWhile (!Text.isBlank ·)
  match Text.trimLeft later with
  | '-' :: '>' :: after => some (run, after)
  | _ => match run with
    | [] => none
    | first :: more =>
      (cutLastArrow more).map fun (before, after) => (first :: before, after ++ later)

/-- An item of a line with the given number, read as a rule. -/
def readRule (line : Nat) (item : Text) : Except GrammarError Rule :=
  match cutItem item with
  | none => .error (.malformedRule line item)
  | some (before, after) => do
    let left ← readSymbol before
    let right := Text.trim after
    if right = [] then
      throw (.emptyProduction item)
    return ⟨left, right⟩

def readRules (line : Nat) (text : Text) : Except GrammarError (List Rule) :=
  (Text.items ';' text).mapM (readRule line)

def readSymbols (text : Text) : Except GrammarError (List Char) :=
  (Text.items ';' text).mapM readSymbol

end BoundedDerivation.LineForm
