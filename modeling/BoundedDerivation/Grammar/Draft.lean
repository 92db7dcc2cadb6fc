import BoundedDerivation.Grammar.Basic

/-! Drafts of grammars. A draft collects declarations, rules and matrices in any number and of
either kind; only building it decides whether they make a grammar. -/
namespace BoundedDerivation

structure Draft where
  kind : Kind
  start : Char
  nonterminals : List Char := []
  terminals : List Char := []
  rules : List Rule := []
  matrices : List (List Rule) := []
  config : Config := {}
  deriving DecidableEq

namespace Draft

def withNonterminals (draft : Draft) (symbols : List Char) : Draft :=
  { draft with nonterminals := draft.nonterminals ++ symbols }

def withTerminals (draft : Draft) (symbols : List Char) : Draft :=
  { draft with terminals := draft.terminals ++ symbols }

def withRule (draft : Draft) (rule : Rule) : Draft :=
  { draft with rules := draft.rules ++ [rule] }

def withMatrix (draft : Draft) (rules : List Rule) : Draft :=
  { draft with matrices := draft.matrices ++ [rules] }

def withConfig (draft : Draft) (config : Config) : Draft := { draft with config }

/-- The rule store of the draft's kind; rules of the other kind make a draft unfit. -/
def store (draft : Draft) (alphabet : Alphabet) : Except GrammarError RuleStore :=
  match draft.kind with
  | .contextFree =>
    if draft.matrices ≠ [] then .error (.kindMismatch .contextFree)
    else (ContextFreeRules.ofRules alphabet draft.rules).map .contextFree
  | .matrix =>
    if draft.rules ≠ [] then .error (.kindMismatch .matrix)
    else (MatrixRules.ofMatrices (draft.matrices.map Matrix.mk)).map .matrix

def build (draft : Draft) : Checked Grammar := do
  let alphabet ← Alphabet.ofSymbols draft.nonterminals draft.terminals
  let rules ← draft.store alphabet
  Grammar.ofParts alphabet draft.start rules draft.config

end Draft
end BoundedDerivation
