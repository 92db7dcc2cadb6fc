import BoundedDerivation.Error
import BoundedDerivation.SymbolSet

/-! Alphabets: the nonterminal and the terminal symbols of a grammar. -/
namespace BoundedDerivation

structure Alphabet where
  nonterminals : SymbolSet
  terminals : SymbolSet
  deriving DecidableEq

namespace Alphabet

/-- No symbol may be in both sets; the least one that is gets reported. -/
def validate (alphabet : Alphabet) : Except GrammarError Unit :=
  match alphabet.nonterminals.firstShared alphabet.terminals with
  | some symbol => .error (.overlappingAlphabet symbol)
  | none => .ok ()

def ofSymbols (nonterminals terminals : List Char) : Except GrammarError Alphabet := do
  let alphabet : Alphabet := ⟨.ofList nonterminals, .ofList terminals⟩
  alphabet.validate
  return alphabet

def isNonterminal (alphabet : Alphabet) (symbol : Char) : Bool := symbol ∈ alphabet.nonterminals

def isTerminal (alphabet : Alphabet) (symbol : Char) : Bool := symbol ∈ alphabet.terminals

def declares (alphabet : Alphabet) (symbol : Char) : Bool :=
  alphabet.isNonterminal symbol || alphabet.isTerminal symbol

def isTerminalWord (alphabet : Alphabet) (word : Word) : Bool := word.all alphabet.isTerminal

/-- The nonterminals that occur in a word, each once and in increasing order. -/
def nonterminalsIn (alphabet : Alphabet) (word : Word) : List Char :=
  alphabet.nonterminals.toList.filter (· ∈ word)

def firstUndeclared (alphabet : Alphabet) (word : Word) : Option Char :=
  word.find? (fun symbol => !alphabet.declares symbol)

end Alphabet
end BoundedDerivation
