import BoundedDerivation.Definition.Basic
import BoundedDerivation.Json.Value

/-! Definitions as JSON objects. Writing fixes the order of the members. Reading takes them in any
order, looks only at the rules of the named kind, and also takes a kind by its number and a rule
as a pair. -/
namespace BoundedDerivation.Definition

def encodeSymbol (symbol : Char) : Json := .string [symbol]

def encodeRule (rule : Rule) : Json :=
  .object [("left".toList, encodeSymbol rule.left), ("right".toList, .string rule.right)]

def encodeRules (rules : List Rule) : Json := .array (rules.map encodeRule)

/-- The two members that depend on the kind: its name and its rules. -/
def encodeDefined : DefinedRules → List (Text × Json)
  | .contextFree rules =>
    [("kind".toList, .string "cfg".toList), ("rules".toList, encodeRules rules)]
  | .matrix matrices =>
    [("kind".toList, .string "mg".toList),
      ("matrices".toList, .array (matrices.map encodeRules))]

def encode (definition : Definition) : Json :=
  .object <|
    [("nonterminals".toList, .array (definition.nonterminals.map encodeSymbol)),
      ("terminals".toList, .array (definition.terminals.map encodeSymbol)),
      ("start".toList, encodeSymbol definition.start)] ++
    encodeDefined definition.rules

def decodeList {α : Type} (decodeItem : Json → Option α) : Json → Option (List α)
  | .array items => items.mapM decodeItem
  | _ => none

def decodeSymbol : Json → Option Char
  | .string [symbol] => some symbol
  | _ => none

def decodeWord : Json → Option Word
  | .string word => some word
  | _ => none

def decodeRule : Json → Option Rule
  | .object members => do
    let left ← decodeSymbol (← Json.uniqueMember "left".toList members)
    let right ← decodeWord (← Json.uniqueMember "right".toList members)
    return ⟨left, right⟩
  | .array [left, right] => do
    return ⟨← decodeSymbol left, ← decodeWord right⟩
  | _ => none

def decodeKind : Json → Option Kind
  | .string name =>
    if name = "cfg".toList then some .contextFree
    else if name = "mg".toList then some .matrix
    else none
  | .number numeral =>
    if numeral = .ofNat 0 then some .contextFree
    else if numeral = .ofNat 1 then some .matrix
    else none
  | _ => none

def decodeDefined (members : List (Text × Json)) : Option DefinedRules := do
  match ← decodeKind (← Json.uniqueMember "kind".toList members) with
  | .contextFree =>
    return .contextFree (← decodeList decodeRule (← Json.uniqueMember "rules".toList members))
  | .matrix =>
    return .matrix (← decodeList (decodeList decodeRule)
      (← Json.uniqueMember "matrices".toList members))

def decode : Json → Option Definition
  | .object members => do
    let nonterminals ← decodeList decodeSymbol (← Json.uniqueMember "nonterminals".toList members)
    let terminals ← decodeList decodeSymbol (← Json.uniqueMember "terminals".toList members)
    let start ← decodeSymbol (← Json.uniqueMember "start".toList members)
    return ⟨nonterminals, terminals, start, ← decodeDefined members⟩
  | _ => none

end BoundedDerivation.Definition
