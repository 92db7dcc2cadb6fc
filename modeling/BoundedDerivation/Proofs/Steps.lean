import BoundedDerivation.Proofs.Validity

/-! One step of a grammar: which words it leads to, and that it never shortens a word if the
grammar is valid. -/
namespace BoundedDerivation

theorem Word.length_le_of_replaceFirst {word result right : Word} {symbol : Char}
    (h : word.replaceFirst symbol right = some result) (hright : right ≠ []) :
    word.length ≤ result.length := by
  obtain ⟨before, after, -, rfl, rfl⟩ := replaceFirst_eq_some_iff.mp h
  have hpos := List.length_pos_iff.mpr hright
  simp only [List.length_append, List.length_cons]
  omega

theorem Word.mem_of_replaceFirst {word result right : Word} {symbol : Char}
    (h : word.replaceFirst symbol right = some result) : symbol ∈ word := by
  obtain ⟨before, after, -, rfl, -⟩ := replaceFirst_eq_some_iff.mp h
  simp

namespace Matrix

theorem apply_cons_eq_some_iff {rule : Rule} {rules : List Rule} {word result : Word} :
    (⟨rule :: rules⟩ : Matrix).apply word = some result ↔
      ∃ next, word.replaceFirst rule.left rule.right = some next ∧
        (⟨rules⟩ : Matrix).apply next = some result :=
  Option.bind_eq_some_iff

/-- A matrix grows a word rule by rule, so no word in between is longer than the result. -/
theorem length_le_of_apply {matrix : Matrix} {word result : Word}
    (hright : ∀ rule ∈ matrix.rules, rule.right ≠ []) (h : matrix.apply word = some result) :
    word.length ≤ result.length := by
  obtain ⟨rules⟩ := matrix
  induction rules generalizing word with
  | nil =>
    obtain rfl := Option.some.inj h
    exact Nat.le_refl _
  | cons rule rules ih =>
    obtain ⟨next, hnext, hresult⟩ := apply_cons_eq_some_iff.mp h
    obtain ⟨hfirst, hrest⟩ := List.forall_mem_cons.mp hright
    exact Nat.le_trans (Word.length_le_of_replaceFirst hnext hfirst) (ih hrest hresult)

end Matrix

namespace ContextFreeRules

variable {rules : ContextFreeRules} {alphabet : Alphabet} {word result : Word}

theorem mem_nonterminalsIn {symbol : Char} :
    symbol ∈ alphabet.nonterminalsIn word ↔ symbol ∈ alphabet.nonterminals ∧ symbol ∈ word := by
  simp [Alphabet.nonterminalsIn, SymbolSet.mem_def]

/-- One step replaces the leftmost occurrence of some nonterminal by one of its alternatives. -/
theorem mem_successors_iff :
    result ∈ rules.successors alphabet word ↔
      ∃ symbol ∈ alphabet.nonterminals, ∃ right ∈ rules.alternatives symbol,
        word.replaceFirst symbol right = some result := by
  simp only [successors, replacements, List.mem_flatMap, List.mem_filterMap, mem_nonterminalsIn]
  constructor
  · rintro ⟨symbol, ⟨hsymbol, -⟩, right, hright, hresult⟩
    exact ⟨symbol, hsymbol, right, hright, hresult⟩
  · rintro ⟨symbol, hsymbol, right, hright, hresult⟩
    exact ⟨symbol, ⟨hsymbol, Word.mem_of_replaceFirst hresult⟩, right, hright, hresult⟩

end ContextFreeRules

theorem MatrixRules.mem_successors_iff {store : MatrixRules} {word result : Word} :
    result ∈ store.successors word ↔ ∃ matrix ∈ store.matrices, matrix.apply word = some result :=
  List.mem_filterMap

namespace Grammar

/-- The relation that one step of a grammar is. -/
def Step (grammar : Grammar) (word result : Word) : Prop := result ∈ grammar.successors word

instance (grammar : Grammar) : DecidableRel grammar.Step := fun word result =>
  inferInstanceAs (Decidable (result ∈ grammar.successors word))

theorem Valid.length_le_of_step {grammar : Grammar} (hg : grammar.Valid) {word result : Word}
    (h : grammar.Step word result) : word.length ≤ result.length := by
  have hright := hg.right_ne_nil
  unfold Step successors at h
  cases hr : grammar.rules with
  | contextFree rules =>
    rw [hr] at h hright
    obtain ⟨symbol, -, right, hmem, hresult⟩ := ContextFreeRules.mem_successors_iff.mp h
    have hne := hright _ (ContextFreeRules.mem_toList_of_mem_alternatives hmem)
    exact Word.length_le_of_replaceFirst hresult hne
  | matrix store =>
    rw [hr] at h hright
    obtain ⟨matrix, hmatrix, hresult⟩ := MatrixRules.mem_successors_iff.mp h
    have hne : ∀ rule ∈ matrix.rules, rule.right ≠ [] := fun rule hrule =>
      hright rule (RuleStore.mem_allRules_matrix hmatrix hrule)
    exact Matrix.length_le_of_apply hne hresult

end Grammar
end BoundedDerivation
