import BoundedDerivation.Grammar.Draft
import BoundedDerivation.LineForm.Item

/-! Reading grammars from lines of text. Five lines count: kind, nonterminals, terminals, rules
and start symbol. Blank lines and lines that start with a hash sign may stand anywhere. -/
namespace BoundedDerivation.LineForm

/-- A trimmed line with its number in the text. -/
structure Line where
  number : Nat
  content : Text
  deriving DecidableEq

def Line.isSignificant (line : Line) : Bool :=
  line.content ≠ [] && line.content.head? ≠ some '#'

def significant (text : Text) : List Line :=
  (((Text.lines text).zipIdx 1).map fun (content, number) =>
    (⟨number, Text.trim content⟩ : Line)).filter Line.isSignificant

/-- The rules line of a matrix grammar; between two bars there need not be a matrix. -/
def readMatrices (line : Line) : Except GrammarError (List (List Rule)) := do
  let matrices ← (line.content.splitOn '|').mapM (readRules line.number)
  return matrices.filter (· ≠ [])

/-- The five lines as a draft. The rules come last, after the start symbol. -/
def readDraft (kind nonterminals terminals rules start : Line) (config : Config) :
    Except GrammarError Draft := do
  let kind ← readKind kind.content
  let nonterminals ← readSymbols nonterminals.content
  let terminals ← readSymbols terminals.content
  let start ← readSymbol start.content
  let draft : Draft := { kind, start, nonterminals, terminals, config }
  match kind with
  | .contextFree => return { draft with rules := ← readRules rules.number rules.content }
  | .matrix => return { draft with matrices := ← readMatrices rules }

def read (text : Text) (config : Config) : Checked Grammar :=
  match significant text with
  | kind :: nonterminals :: terminals :: rules :: start :: _ => do
    let draft ← readDraft kind nonterminals terminals rules start config
    draft.build
  | few => .fail (.tooFewLines (Text.lines text).length few.length)

end BoundedDerivation.LineForm
