import BoundedDerivation.Error
import BoundedDerivation.Text.Literal
import BoundedDerivation.Text.Pieces

/-! Errors in full detail, as the command line reports them: the name of the case and its data,
with all texts as literals. -/
namespace BoundedDerivation.CommandLine

/-- A case with one datum. -/
def single (name : String) (datum : Text) : Text := name.toList ++ '(' :: datum ++ [')']

/-- A case with named data. -/
def record (name : String) (data : List (String × Text)) : Text :=
  name.toList ++ " \x7b ".toList ++
    Text.join ", ".toList (data.map fun (key, datum) => key.toList ++ ": ".toList ++ datum) ++
    " \x7d".toList

def quoted (message : String) : Text := Text.literal message.toList

/-- A refusal by the file system. -/
def systemFault (code : Nat) (kind message : String) : Text :=
  record "Os"
    [("code", Text.ofNat code), ("kind", kind.toList), ("message", quoted message)]

def faultDetail : FileFault → Text
  | .notFound => systemFault 2 "NotFound" "No such file or directory"
  | .notDirectory => systemFault 20 "NotADirectory" "Not a directory"
  | .isDirectory => systemFault 21 "IsADirectory" "Is a directory"
  | .nameTooLong => systemFault 36 "InvalidFilename" "File name too long"
  | .notUtf8 =>
    record "Error" [("kind", "InvalidData".toList), ("message", quoted FileFault.notUtf8.message)]

def kindDetail : Kind → Text
  | .contextFree => "ContextFree".toList
  | .matrix => "Matrix".toList

def parseDetail (line : Nat) (message : String) : Text :=
  record "Parse" [("line", Text.ofNat line), ("message", quoted message)]

def detail : GrammarError → Text
  | .unreadable fault => single "Io" (faultDetail fault)
  | .malformedJson => "Json".toList
  | .tooFewLines line found => parseDetail line (GrammarError.missingLines found)
  | .malformedRule line item => parseDetail line (GrammarError.malformedItem item)
  | .unknownKind name => single "UnknownGrammarKind" (Text.literal name)
  | .invalidSymbol token => single "InvalidSymbol" (Text.literal token)
  | .overlappingAlphabet symbol => single "OverlappingAlphabet" (Text.charLiteral symbol)
  | .undeclaredNonterminal symbol => single "UndeclaredNonTerminal" (Text.charLiteral symbol)
  | .undeclaredSymbol symbol rule =>
    record "UndeclaredSymbol"
      [("symbol", Text.charLiteral symbol), ("rule", Text.literal rule.written)]
  | .invalidStart symbol => single "InvalidStartSymbol" (Text.charLiteral symbol)
  | .kindMismatch kind => single "RuleKindMismatch" (kindDetail kind)
  | .emptyProduction written => single "EmptyProduction" (Text.literal written)
  | .invalidDerivation fault => single "InvalidDerivation" (quoted fault.message)

end BoundedDerivation.CommandLine
