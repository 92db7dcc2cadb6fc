import BoundedDerivation.Grammar.Draft

/-! Definitions: grammars as they are exchanged, with all lists as they were given. -/
namespace BoundedDerivation

inductive DefinedRules where
  | contextFree (rules : List Rule)
  | matrix (matrices : List (List Rule))
  deriving DecidableEq

structure Definition where
  nonterminals : List Char
  terminals : List Char
  start : Char
  rules : DefinedRules
  deriving DecidableEq

namespace Definition

def toDraft (definition : Definition) (config : Config) : Draft :=
  match definition with
  | ⟨nonterminals, terminals, start, .contextFree rules⟩ =>
    { kind := .contextFree, start, nonterminals, terminals, rules, config }
  | ⟨nonterminals, terminals, start, .matrix matrices⟩ =>
    { kind := .matrix, start, nonterminals, terminals, matrices, config }

def build (definition : Definition) (config : Config) : Checked Grammar :=
  (definition.toDraft config).build

end Definition

def RuleStore.toDefined : RuleStore → DefinedRules
  | contextFree rules => .contextFree rules.toList
  | matrix rules => .matrix (rules.matrices.map Matrix.rules)

def Grammar.toDefinition (grammar : Grammar) : Definition :=
  ⟨grammar.alphabet.nonterminals.toList, grammar.alphabet.terminals.toList, grammar.start,
    grammar.rules.toDefined⟩

end BoundedDerivation
