import BoundedDerivation.Kind
import BoundedDerivation.Rule
import BoundedDerivation.Text.Blank

/-! What can be wrong with a grammar, with a file that should hold one, and with a derivation that
claims to be licensed by one. Every error is a cause; its wording is a function of the cause. -/
namespace BoundedDerivation

/-- Why a file gives no text or takes none. -/
inductive FileFault where
  | notFound
  | notDirectory
  | isDirectory
  | nameTooLong
  | notUtf8
  deriving DecidableEq

namespace FileFault

def message : FileFault → String
  | notFound => "No such file or directory (os error 2)"
  | notDirectory => "Not a directory (os error 20)"
  | isDirectory => "Is a directory (os error 21)"
  | nameTooLong => "File name too long (os error 36)"
  | notUtf8 => "stream did not contain valid UTF-8"

end FileFault

/-- The first respect in which a list of words fails to be a derivation. -/
inductive DerivationFault where
  | noWords
  | wrongStart (found : Word) (start : Char)
  | wrongStep (step : Nat) (before after : Word)
  | notTerminal (result : Word)
  deriving DecidableEq

namespace DerivationFault

def message : DerivationFault → String
  | noWords => "empty derivation"
  | wrongStart found start =>
    s!"derivation starts at '{String.ofList found}' instead of '{start}'"
  | wrongStep step before after =>
    s!"step {step}: '{String.ofList after}' does not follow from '{String.ofList before}'"
  | notTerminal result => s!"final word '{String.ofList result}' is not terminal"

end DerivationFault

inductive GrammarError where
  | unreadable (fault : FileFault)
  | malformedJson
  /-- The text ends, after `line` lines, with only `found` lines of content. -/
  | tooFewLines (line found : Nat)
  | malformedRule (line : Nat) (item : Text)
  | unknownKind (name : Text)
  | invalidSymbol (token : Text)
  | overlappingAlphabet (symbol : Char)
  | undeclaredNonterminal (symbol : Char)
  | undeclaredSymbol (symbol : Char) (rule : Rule)
  | invalidStart (symbol : Char)
  | kindMismatch (kind : Kind)
  /-- The rule without a right side is quoted as it was written. -/
  | emptyProduction (written : Text)
  | invalidDerivation (fault : DerivationFault)
  deriving DecidableEq

namespace GrammarError

/-- What a reader of the text form is told when lines are missing. -/
def missingLines (found : Nat) : String :=
  s!"expected kind, non-terminals, terminals, rules and start symbol, found {found} line(s)"

def malformedItem (item : Text) : String := s!"malformed rule '{String.ofList item}'"

def message : GrammarError → String
  | unreadable fault => s!"IO error: {fault.message}"
  | malformedJson => "JSON error"
  | tooFewLines line found => s!"Parse error on line {line}: {missingLines found}"
  | malformedRule line item => s!"Parse error on line {line}: {malformedItem item}"
  | unknownKind name => s!"Unknown grammar kind: {String.ofList name}"
  | invalidSymbol token =>
    s!"Invalid symbol '{String.ofList token}': symbols must be single characters"
  | overlappingAlphabet symbol =>
    s!"Symbol '{symbol}' is declared both as a non-terminal and a terminal"
  | undeclaredNonterminal symbol =>
    s!"Invalid grammar rule: '{symbol}' is not a declared non-terminal"
  | undeclaredSymbol symbol rule =>
    s!"Invalid grammar rule {String.ofList rule.written}: symbol '{symbol}' is not declared"
  | invalidStart symbol => s!"Start symbol '{symbol}' is not a declared non-terminal"
  | kindMismatch kind => s!"{kind.name} grammars cannot hold this kind of rule"
  | emptyProduction written => s!"Empty production: {String.ofList written}"
  | invalidDerivation fault => s!"Invalid derivation: {fault.message}"

/-- A format error is a defect of a grammar that could be read. -/
def isFormatError : GrammarError → Bool
  | unreadable _ | malformedJson | invalidDerivation _ => false
  | _ => true

end GrammarError
end BoundedDerivation
