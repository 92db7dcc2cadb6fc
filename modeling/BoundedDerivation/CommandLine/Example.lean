import BoundedDerivation.CommandLine.Arguments
import BoundedDerivation.Definition.Encoding
import BoundedDerivation.Json.Writer
import BoundedDerivation.LineForm.Writer

/-! The example grammars that the command line writes to files. -/
namespace BoundedDerivation.CommandLine

/-- Words with as many a as b, of which some are built from both ends. -/
def contextFreeExample : Draft :=
  { kind := .contextFree
    start := 'S'
    nonterminals := "SA".toList
    terminals := "ab".toList
    rules := [⟨'S', "aSb".toList⟩, ⟨'S', "SS".toList⟩, ⟨'S', "ab".toList⟩, ⟨'S', "aA".toList⟩,
      ⟨'A', "b".toList⟩] }

/-- Words that consist of a, b and c in equal numbers and in this order. -/
def matrixExample : Draft :=
  { kind := .matrix
    start := 'S'
    nonterminals := "SABC".toList
    terminals := "abc".toList
    matrices := [[⟨'S', "ABC".toList⟩],
      [⟨'A', "aA".toList⟩, ⟨'B', "bB".toList⟩, ⟨'C', "cC".toList⟩],
      [⟨'A', "a".toList⟩, ⟨'B', "b".toList⟩, ⟨'C', "c".toList⟩]] }

def exampleDraft : Kind → Draft
  | .contextFree => contextFreeExample
  | .matrix => matrixExample

def exampleName : Kind → String
  | .contextFree => "cfg"
  | .matrix => "mg"

namespace ExampleOptions

def chosenKind (options : ExampleOptions) : Kind := options.kind.getD .contextFree

/-- Without a path, the file is named for the kind of the example and the form of its content. -/
def path (options : ExampleOptions) : Text :=
  options.output.getD <|
    ("example_" ++ exampleName options.chosenKind ++ "_grammar." ++
      if options.json then "json" else "txt").toList

def content (options : ExampleOptions) : Except GrammarError Text := do
  let grammar ← (exampleDraft options.chosenKind).build.result
  return if options.json then grammar.toDefinition.encode.pretty 0 else LineForm.write grammar

def confirmation (options : ExampleOptions) : Text :=
  ("Created example " ++ exampleName options.chosenKind ++ " grammar at: ").toList ++
    options.path ++ ['\n']

end ExampleOptions
end BoundedDerivation.CommandLine
