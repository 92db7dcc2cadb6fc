import BoundedDerivation.GrammarFile
import BoundedDerivation.Proofs.Json.Reading
import BoundedDerivation.Proofs.Rebuilding

/-! Grammars in JSON. Decoding takes apart what encoding puts together, the brackets of a definition
are never nested more than four deep, and the parts of a valid grammar build it again: so a grammar
survives being written in either layout, whatever its symbols are. -/
namespace BoundedDerivation

namespace Definition

theorem decodeList_map {α : Type} {encodeItem : α → Json} {decodeItem : Json → Option α}
    (h : ∀ item, decodeItem (encodeItem item) = some item) (items : List α) :
    decodeList decodeItem (.array (items.map encodeItem)) = some items := by
  induction items with
  | nil => rfl
  | cons item items ih =>
    unfold decodeList at ih ⊢
    simp [h, ih]

theorem decodeSymbol_encodeSymbol (symbol : Char) :
    decodeSymbol (encodeSymbol symbol) = some symbol := rfl

theorem decodeRule_encodeRule (rule : Rule) : decodeRule (encodeRule rule) = some rule := by
  simp [encodeRule, decodeRule, Json.uniqueMember, decodeSymbol_encodeSymbol, decodeWord]

theorem decodeRules_encodeRules (rules : List Rule) :
    decodeList decodeRule (encodeRules rules) = some rules :=
  decodeList_map decodeRule_encodeRule rules

theorem decode_encode (definition : Definition) : decode definition.encode = some definition := by
  obtain ⟨nonterminals, terminals, start, rules⟩ := definition
  cases rules with
  | contextFree rules =>
    simp [encode, encodeDefined, decode, decodeDefined, decodeKind, Json.uniqueMember,
      decodeList_map decodeSymbol_encodeSymbol, decodeSymbol_encodeSymbol, decodeRules_encodeRules]
  | matrix matrices =>
    simp [encode, encodeDefined, decode, decodeDefined, decodeKind, Json.uniqueMember,
      decodeList_map decodeSymbol_encodeSymbol, decodeSymbol_encodeSymbol,
      decodeList_map decodeRules_encodeRules]

theorem nestsWithin_encodeSymbols (depth : Nat) (symbols : List Char) :
    (Json.array (symbols.map encodeSymbol)).NestsWithin (depth + 1) := by
  refine .array fun item hitem => ?_
  obtain ⟨symbol, -, rfl⟩ := List.mem_map.mp hitem
  exact .string _

theorem nestsWithin_encodeRules (depth : Nat) (rules : List Rule) :
    (encodeRules rules).NestsWithin (depth + 2) := by
  refine .array fun item hitem => ?_
  obtain ⟨rule, -, rfl⟩ := List.mem_map.mp hitem
  refine .object fun member hmember => ?_
  simp only [List.mem_cons, List.not_mem_nil, or_false] at hmember
  rcases hmember with rfl | rfl
  · exact .string _
  · exact .string _

theorem nestsWithin_encodeDefined (depth : Nat) (rules : DefinedRules) :
    ∀ member ∈ encodeDefined rules, member.2.NestsWithin (depth + 3) := by
  intro member hmember
  cases rules with
  | contextFree rules =>
    simp only [encodeDefined, List.mem_cons, List.not_mem_nil, or_false] at hmember
    rcases hmember with rfl | rfl
    · exact .string _
    · exact nestsWithin_encodeRules (depth + 1) rules
  | matrix matrices =>
    simp only [encodeDefined, List.mem_cons, List.not_mem_nil, or_false] at hmember
    rcases hmember with rfl | rfl
    · exact .string _
    · refine .array fun item hitem => ?_
      obtain ⟨rules, -, rfl⟩ := List.mem_map.mp hitem
      exact nestsWithin_encodeRules depth rules

theorem nestsWithin_encode (depth : Nat) (definition : Definition) :
    definition.encode.NestsWithin (depth + 4) := by
  refine .object fun member hmember => ?_
  rcases List.mem_append.mp hmember with hmember | hmember
  · simp only [List.mem_cons, List.not_mem_nil, or_false] at hmember
    rcases hmember with rfl | rfl | rfl
    · exact nestsWithin_encodeSymbols (depth + 2) _
    · exact nestsWithin_encodeSymbols (depth + 2) _
    · exact .string _
  · exact nestsWithin_encodeDefined depth definition.rules member hmember

end Definition

theorem GrammarFile.readDefinition_of_read {text : Text} {definition : Definition}
    (h : Json.read text = some definition.encode) : readDefinition text = .ok definition := by
  simp [readDefinition, h, Definition.decode_encode]

namespace Grammar

/-- A valid grammar comes back from its JSON text as it was, under the same configuration. -/
theorem json_text_rebuilds {grammar : Grammar} (hg : grammar.Valid) :
    ∀ text ∈ [Json.compact grammar.toDefinition.encode, Json.pretty 0 grammar.toDefinition.encode],
      GrammarFile.readDefinition text = .ok grammar.toDefinition ∧
        (grammar.toDefinition.build grammar.config).result = .ok grammar := by
  have hnests := Definition.nestsWithin_encode 123 grammar.toDefinition
  intro text htext
  refine ⟨GrammarFile.readDefinition_of_read ?_, hg.result_build_toDefinition⟩
  simp only [List.mem_cons, List.not_mem_nil, or_false] at htext
  rcases htext with rfl | rfl
  · exact Json.read_compact hnests
  · exact Json.read_pretty hnests

/-- Its symbols are a quote, a backslash, control characters, a blank and one beyond 16 bits. Its
matrices mention others that it does not declare. -/
def unprintable : Grammar where
  alphabet := ⟨.ofList ['"', '\\'], .ofList ['\n', '\x00', ' ', '\x7f', '😀']⟩
  start := '"'
  rules := .matrix
    ⟨[⟨[⟨'"', ['\\', '"']⟩, ⟨'"', ['\n', ' ', '\x00']⟩]⟩, ⟨[⟨'\\', ['😀', '\x1f', '/']⟩]⟩], by simp⟩
  config := { maxDepth := 3, maxLength := 7 }

theorem json_text_rebuilds_unprintable :
    unprintable.Valid ∧
      GrammarFile.readDefinition (Json.compact unprintable.toDefinition.encode) =
        .ok unprintable.toDefinition ∧
      (unprintable.toDefinition.build unprintable.config).result = .ok unprintable := by
  have hg : unprintable.Valid := by decide
  exact ⟨hg, json_text_rebuilds hg _ List.mem_cons_self⟩

end Grammar
end BoundedDerivation
