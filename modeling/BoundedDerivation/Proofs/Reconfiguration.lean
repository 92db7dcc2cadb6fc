import BoundedDerivation.GrammarFile
import BoundedDerivation.Proofs.Rebuilding

/-! The life of a grammar. There are several ways to make one, and its configuration may be
exchanged any number of times afterwards. All of them go through validation, so what validation asks
for holds at every moment; an exchange that would break it is undone. -/
namespace BoundedDerivation

namespace Rule

/-- An alphabet has the symbols of the rule, each for its side. -/
structure Fits (alphabet : Alphabet) (rule : Rule) : Prop where
  left : rule.left ∈ alphabet.nonterminals
  right : ∀ symbol ∈ rule.right, alphabet.declares symbol

theorem fits_iff {alphabet : Alphabet} {rule : Rule} :
    rule.Fits alphabet ↔
      alphabet.isNonterminal rule.left ∧ ∀ symbol ∈ rule.right, alphabet.declares symbol := by
  rw [Alphabet.isNonterminal_iff]
  exact ⟨fun h => ⟨h.left, h.right⟩, fun h => ⟨h.1, h.2⟩⟩

theorem not_fits_iff {alphabet : Alphabet} {rule : Rule} :
    ¬rule.Fits alphabet ↔
      rule.left ∉ alphabet.nonterminals ∨
        ∃ symbol ∈ rule.right, alphabet.declares symbol = false := by
  rw [fits_iff, Alphabet.isNonterminal_iff, not_and_or]
  simp

end Rule

/-- Symbols matter to context-free rules always and to those of matrices under strict validation. -/
theorem RuleStore.result_validate_eq_ok_iff {store : RuleStore} {alphabet : Alphabet}
    {strict : Bool} :
    (store.validate alphabet strict).result = .ok () ↔
      (∀ rule ∈ store.allRules, rule.right ≠ []) ∧
        (store.kind = .contextFree ∨ strict → ∀ rule ∈ store.allRules, rule.Fits alphabet) := by
  cases store with
  | contextFree rules =>
    change rules.validate alphabet = .ok () ↔ _
    simp only [ContextFreeRules.validate_eq_ok_iff, ContextFreeRules.check_eq_ok_iff, allRules,
      kind, true_or, true_imp_iff, Rule.fits_iff]
    constructor
    · intro h
      exact ⟨fun rule hrule => (h rule hrule).2.1,
        fun rule hrule => ⟨(h rule hrule).1, (h rule hrule).2.2⟩⟩
    · rintro ⟨hright, hfits⟩ rule hrule
      exact ⟨(hfits rule hrule).1, hright rule hrule, (hfits rule hrule).2⟩
  | matrix store =>
    change (store.validate alphabet strict).result = .ok () ↔ _
    simp only [MatrixRules.result_validate_eq_ok_iff, MatrixRules.result_checkRule_eq_ok_iff,
      allRules, kind, reduceCtorEq, false_or, Rule.fits_iff, List.mem_flatMap, forall_exists_index, and_imp]
    constructor
    · intro h
      exact ⟨fun rule matrix hmatrix hrule => (h matrix hmatrix rule hrule).1,
        fun hstrict rule matrix hmatrix hrule => (h matrix hmatrix rule hrule).2 hstrict⟩
    · rintro ⟨hright, hfits⟩ matrix hmatrix rule hrule
      exact ⟨hright rule matrix hmatrix hrule,
        fun hstrict => hfits hstrict rule matrix hmatrix hrule⟩

namespace Grammar

/-- What validation stands for. -/
structure WellFormed (grammar : Grammar) : Prop where
  disjoint : ∀ symbol ∈ grammar.alphabet.nonterminals, symbol ∉ grammar.alphabet.terminals
  start : grammar.start ∈ grammar.alphabet.nonterminals
  right_ne_nil : ∀ rule ∈ grammar.rules.allRules, rule.right ≠ []
  fits : grammar.kind = .contextFree ∨ grammar.config.strictMatrices →
    ∀ rule ∈ grammar.rules.allRules, rule.Fits grammar.alphabet

variable {grammar : Grammar}

theorem valid_iff_wellFormed : grammar.Valid ↔ grammar.WellFormed := by
  rw [valid_iff, RuleStore.result_validate_eq_ok_iff]
  constructor
  · rintro ⟨hdisjoint, hstart, hright, hfits⟩
    exact ⟨hdisjoint, hstart, hright, hfits⟩
  · rintro ⟨hdisjoint, hstart, hright, hfits⟩
    exact ⟨hdisjoint, hstart, hright, hfits⟩

/-- A grammar that is well-formed under one configuration is so under all others, except that strict
validation of matrices may bring to light what lenient validation lets pass. -/
theorem WellFormed.not_withConfig_iff (h : grammar.WellFormed) {config : Config} :
    ¬WellFormed { grammar with config } ↔
      grammar.kind = .matrix ∧ config.strictMatrices ∧
        ∃ rule ∈ grammar.rules.allRules, ¬rule.Fits grammar.alphabet := by
  constructor
  · intro hbroken
    have hunfit : ¬(grammar.kind = .contextFree ∨ config.strictMatrices →
        ∀ rule ∈ grammar.rules.allRules, rule.Fits grammar.alphabet) :=
      fun hfits => hbroken ⟨h.disjoint, h.start, h.right_ne_nil, hfits⟩
    obtain ⟨hasked, hunfit⟩ := Classical.not_imp.mp hunfit
    have hkind : grammar.kind ≠ .contextFree := fun hkind => hunfit (h.fits (.inl hkind))
    refine ⟨?_, hasked.resolve_left hkind, by simpa using hunfit⟩
    cases hgrammar : grammar.kind with
    | contextFree => exact absurd hgrammar hkind
    | matrix => rfl
  · rintro ⟨-, hstrict, rule, hrule, hunfit⟩ hkept
    exact hunfit (hkept.fits (.inr hstrict) rule hrule)

theorem not_valid_iff : ¬grammar.Valid ↔ ∃ error, grammar.validate.result = .error error := by
  constructor
  · intro hinvalid
    cases hresult : grammar.validate.result with
    | ok => exact absurd ⟨hresult⟩ hinvalid
    | error error => exact ⟨error, rfl⟩
  · rintro ⟨error, herror⟩ hvalid
    rw [hvalid.accepted] at herror
    cases herror

/-- The new configuration stays if the grammar is valid under it. If not, there is no trace of it.
-/
theorem exchangeConfig_eq (grammar : Grammar) (config : Config) :
    grammar.exchangeConfig config =
      (if Valid { grammar with config } then { grammar with config } else grammar,
        validate { grammar with config }) := by
  unfold exchangeConfig
  dsimp only
  split
  · rename_i hok
    rw [if_pos ⟨hok⟩]
  · rename_i error herror
    rw [if_neg (not_valid_iff.mpr ⟨error, herror⟩)]

/-- The grammars that can come about: made in one way or other, and then reconfigured with or
without success. -/
inductive Reachable : Grammar → Prop
  | built {grammar : Grammar} (draft : Draft) (made : draft.build.result = .ok grammar) :
      Reachable grammar
  | read {grammar : Grammar} (text : Text) (config : Config)
      (made : (LineForm.read text config).result = .ok grammar) : Reachable grammar
  | defined {grammar : Grammar} (definition : Definition) (config : Config)
      (made : (definition.build config).result = .ok grammar) : Reachable grammar
  | loaded {grammar : Grammar} (path : Text) (content : Except FileFault Text) (config : Config)
      (made : (GrammarFile.load path content config).result = .ok grammar) : Reachable grammar
  | assembled {grammar : Grammar} (alphabet : Alphabet) (start : Char) (rules : RuleStore)
      (config : Config) (made : (ofParts alphabet start rules config).result = .ok grammar) :
      Reachable grammar
  | reconfigured {grammar : Grammar} (before : Reachable grammar) (config : Config) :
      Reachable (grammar.exchangeConfig config).1

theorem valid_of_build {draft : Draft} (h : draft.build.result = .ok grammar) : grammar.Valid := by
  obtain ⟨-, -, -, -, hvalid⟩ := Draft.result_build_eq_ok_iff.mp h
  exact hvalid

theorem valid_of_read {text : Text} {config : Config}
    (h : (LineForm.read text config).result = .ok grammar) : grammar.Valid := by
  unfold LineForm.read at h
  split at h
  · obtain ⟨draft, -, hbuild⟩ := Checked.result_bind_eq_ok.mp h
    exact valid_of_build hbuild
  · cases h

theorem valid_of_load {path : Text} {content : Except FileFault Text} {config : Config}
    (h : (GrammarFile.load path content config).result = .ok grammar) : grammar.Valid := by
  obtain ⟨text, -, htold⟩ := Checked.result_bind_eq_ok.mp h
  obtain ⟨-, hmade⟩ := Checked.result_bind_const_eq_ok_iff.mp htold
  split at hmade
  · obtain ⟨definition, -, hbuild⟩ := Checked.result_bind_eq_ok.mp hmade
    exact valid_of_build hbuild
  · exact valid_of_read hmade

/-- An exchange leaves a grammar that is valid, under the one configuration or the other. -/
theorem Valid.exchangeConfig (hg : grammar.Valid) (config : Config) :
    (grammar.exchangeConfig config).1.Valid := by
  rw [exchangeConfig_eq]
  dsimp only
  split
  · assumption
  · exact hg

theorem Reachable.valid (h : grammar.Reachable) : grammar.Valid := by
  induction h with
  | built draft hmade => exact valid_of_build hmade
  | read text config hmade => exact valid_of_read hmade
  | defined definition config hmade => exact valid_of_build hmade
  | loaded path content config hmade => exact valid_of_load hmade
  | assembled alphabet start rules config hmade => exact (result_ofParts_eq_ok_iff.mp hmade).2
  | reconfigured _ config ih => exact ih.exchangeConfig config

/-- However it has come about, a grammar is well-formed and passes its validation. An exchange of
its configuration changes nothing else, and changes nothing at all when it fails, which it does only
if strict validation finds a matrix with undeclared symbols. -/
theorem reachable_grammar_wellFormed (h : grammar.Reachable) :
    grammar.WellFormed ∧ grammar.validate.result = .ok () ∧ ∀ config,
      ((grammar.exchangeConfig config).2.result = .ok () →
        (grammar.exchangeConfig config).1 = { grammar with config }) ∧
      (∀ error, (grammar.exchangeConfig config).2.result = .error error →
        (grammar.exchangeConfig config).1 = grammar) ∧
      ((∃ error, (grammar.exchangeConfig config).2.result = .error error) ↔
        grammar.kind = .matrix ∧ config.strictMatrices ∧ ∃ rule ∈ grammar.rules.allRules,
          rule.left ∉ grammar.alphabet.nonterminals ∨
            ∃ symbol ∈ rule.right, grammar.alphabet.declares symbol = false) := by
  have hwell := valid_iff_wellFormed.mp h.valid
  refine ⟨hwell, h.valid.accepted, fun config => ?_⟩
  simp only [exchangeConfig_eq, ← Rule.not_fits_iff, ← hwell.not_withConfig_iff, ← not_valid_iff,
    ← valid_iff_wellFormed, and_true]
  constructor
  · intro haccepted
    exact if_pos ⟨haccepted⟩
  · intro error herror
    exact if_neg (not_valid_iff.mpr ⟨error, herror⟩)

/-- One of the matrices brings in a symbol that is not declared. -/
def leakyDraft : Draft where
  kind := .matrix
  start := 'S'
  nonterminals := ['S']
  terminals := ['a']
  matrices := [[⟨'S', ['a', 'S']⟩, ⟨'S', ['a']⟩], [⟨'S', ['a', 'Q']⟩]]

def leaky : Grammar where
  alphabet := ⟨.ofList ['S'], .ofList ['a']⟩
  start := 'S'
  rules := .matrix ⟨[⟨[⟨'S', ['a', 'S']⟩, ⟨'S', ['a']⟩]⟩, ⟨[⟨'S', ['a', 'Q']⟩]⟩], by simp⟩
  config := {}

/-- Strict validation is refused, and afterwards other bounds are accepted. -/
theorem reconfigured_leaky_wellFormed :
    leakyDraft.build.result = .ok leaky ∧
      (leaky.exchangeConfig { strictMatrices := true }).1 = leaky ∧
      ((leaky.exchangeConfig { strictMatrices := true }).1.exchangeConfig
        { maxDepth := 7 }).1.WellFormed := by
  have hbuilt : leakyDraft.build.result = .ok leaky := by decide
  have hreachable : leaky.Reachable := .built leakyDraft hbuilt
  have hrefused : (leaky.exchangeConfig { strictMatrices := true }).2.result =
      .error (.undeclaredSymbol 'Q' ⟨'S', ['a', 'Q']⟩) := by decide
  obtain ⟨-, -, hexchange⟩ := reachable_grammar_wellFormed hreachable
  obtain ⟨-, hkept, -⟩ := hexchange { strictMatrices := true }
  have hlater := (hreachable.reconfigured { strictMatrices := true }).reconfigured { maxDepth := 7 }
  exact ⟨hbuilt, hkept _ hrefused, (reachable_grammar_wellFormed hlater).1⟩

end Grammar
end BoundedDerivation
