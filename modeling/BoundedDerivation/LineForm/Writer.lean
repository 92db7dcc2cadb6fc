import BoundedDerivation.Grammar.Basic
import BoundedDerivation.Text.Pieces

/-! Writing grammars as five lines of text. -/
namespace BoundedDerivation.LineForm

def writeSymbols (symbols : SymbolSet) : Text := Text.join [';'] (symbols.toList.map ([·]))

def writeRules (rules : List Rule) : Text := Text.join [';'] (rules.map Rule.written)

def writeStore : RuleStore → Text
  | .contextFree rules => writeRules rules.toList
  | .matrix rules => Text.join " | ".toList (rules.matrices.map (writeRules ·.rules))

/-- The lines of a grammar; the configuration is not written. -/
def writtenLines (grammar : Grammar) : List Text :=
  [grammar.kind.name.toList, writeSymbols grammar.alphabet.nonterminals,
    writeSymbols grammar.alphabet.terminals, writeStore grammar.rules, [grammar.start]]

def write (grammar : Grammar) : Text := (writtenLines grammar).flatMap (· ++ ['\n'])

end BoundedDerivation.LineForm
