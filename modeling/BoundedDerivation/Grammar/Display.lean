import BoundedDerivation.Grammar.Basic
import BoundedDerivation.Text.Pieces

/-! How a grammar is shown to a reader: one line for each of its components. -/
namespace BoundedDerivation.Grammar

def displaySymbols (symbols : SymbolSet) : Text := Text.join ", ".toList (symbols.toList.map ([·]))

def displayRules : RuleStore → List Text
  | .contextFree rules =>
    "Rules P:".toList :: rules.groups.map fun (left, rights) =>
      "  ".toList ++ left :: " -> ".toList ++ Text.join " | ".toList rights
  | .matrix rules =>
    "Matrices M:".toList :: rules.matrices.zipIdx.map fun (matrix, index) =>
      "  Matrix ".toList ++ Text.ofNat (index + 1) ++ ": ".toList ++ matrix.display

def heading (grammar : Grammar) : Text :=
  match grammar.kind with
  | .contextFree => "Context-free grammar G=(N,T,P,".toList ++ [grammar.start, ')']
  | .matrix => "Matrix grammar G=(N,T,M,".toList ++ [grammar.start, ')']

def display (grammar : Grammar) : Text :=
  Text.join ['\n'] <|
    [grammar.heading, "Non-terminals N: ".toList ++ displaySymbols grammar.alphabet.nonterminals,
      "Terminals T: ".toList ++ displaySymbols grammar.alphabet.terminals] ++
    displayRules grammar.rules ++ ["Start symbol: ".toList ++ [grammar.start]]

end BoundedDerivation.Grammar
