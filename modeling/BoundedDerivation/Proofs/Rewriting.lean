import BoundedDerivation.Proofs.Rebuilding
import BoundedDerivation.Proofs.Steps
import Mathlib.Data.List.Chain

/-! Steps of a grammar as rewriting. A rule replaces the first occurrence of its left symbol; the rules
of a matrix do so one after the other. What a grammar computes as the successors of a word is what can
be reached from it in this way, and whatever the kind of the grammar, a step is the work of one or more
of its rules. Rewriting keeps accounts: the left symbols of the rules are all that a word loses, and
their right sides all that it gains. -/
namespace BoundedDerivation

/-- The first occurrence of the left symbol gives way to the right side. -/
def Rule.Rewrites (rule : Rule) (word result : Word) : Prop :=
  ∃ before after, rule.left ∉ before ∧ word = before ++ rule.left :: after ∧
    result = before ++ rule.right ++ after

/-- Each rule rewrites what the one before it has left. -/
inductive Rewriting : List Rule → Word → Word → Prop
  | done (word : Word) : Rewriting [] word word
  | rule {rule : Rule} {rules : List Rule} {word next result : Word}
      (first : rule.Rewrites word next) (rest : Rewriting rules next result) :
      Rewriting (rule :: rules) word result

theorem rewriting_nil_iff {word result : Word} : Rewriting [] word result ↔ word = result := by
  constructor
  · rintro ⟨⟩
    rfl
  · rintro rfl
    exact .done word

theorem rewriting_cons_iff {rule : Rule} {rules : List Rule} {word result : Word} :
    Rewriting (rule :: rules) word result ↔
      ∃ next, rule.Rewrites word next ∧ Rewriting rules next result := by
  constructor
  · rintro ⟨⟩
    rename_i next hfirst hrest
    exact ⟨next, hfirst, hrest⟩
  · rintro ⟨next, hfirst, hrest⟩
    exact .rule hfirst hrest

section Accounts

variable {rule : Rule} {rules : List Rule} {word result : Word} {symbol : Char}

theorem Rule.Rewrites.left_mem (h : rule.Rewrites word result) : rule.left ∈ word := by
  obtain ⟨before, after, -, rfl, -⟩ := h
  simp

theorem Rule.Rewrites.count_add (h : rule.Rewrites word result) (symbol : Char) :
    result.count symbol + [rule.left].count symbol =
      word.count symbol + rule.right.count symbol := by
  obtain ⟨before, after, -, rfl, rfl⟩ := h
  rw [List.append_cons]
  simp only [List.count_append]
  omega

theorem Rewriting.count_add (h : Rewriting rules word result) (symbol : Char) :
    result.count symbol + (rules.map Rule.left).count symbol =
      word.count symbol + (rules.flatMap Rule.right).count symbol := by
  induction h with
  | done word => simp
  | @rule rule rules word next result hfirst hrest ih =>
    have hrule := hfirst.count_add symbol
    rw [List.map_cons, List.flatMap_cons, ← List.singleton_append]
    simp only [List.count_append]
    omega

theorem Rewriting.count_le (h : Rewriting rules word result)
    (hleft : ∀ rule ∈ rules, rule.left ≠ symbol) : word.count symbol ≤ result.count symbol := by
  have hnone : symbol ∉ rules.map Rule.left := by simpa using hleft
  have hbalance := h.count_add symbol
  rw [List.count_eq_zero_of_not_mem hnone] at hbalance
  omega

theorem Rewriting.mem_of_mem (h : Rewriting rules word result)
    (hleft : ∀ rule ∈ rules, rule.left ≠ symbol) (hmem : symbol ∈ word) : symbol ∈ result := by
  have hpos := List.count_pos_iff.mpr hmem
  exact List.count_pos_iff.mp (Nat.lt_of_lt_of_le hpos (h.count_le hleft))

theorem Rewriting.mem_or_mem_right (h : Rewriting rules word result) (hmem : symbol ∈ result) :
    symbol ∈ word ∨ ∃ rule ∈ rules, symbol ∈ rule.right := by
  by_contra hnowhere
  obtain ⟨hword, hright⟩ := not_or.mp hnowhere
  rw [← List.mem_flatMap] at hright
  have hbalance := h.count_add symbol
  rw [List.count_eq_zero_of_not_mem hword, List.count_eq_zero_of_not_mem hright] at hbalance
  have hpos := List.count_pos_iff.mpr hmem
  omega

end Accounts

theorem Matrix.apply_eq_some_iff {matrix : Matrix} {word result : Word} :
    matrix.apply word = some result ↔ Rewriting matrix.rules word result := by
  obtain ⟨rules⟩ := matrix
  induction rules generalizing word with
  | nil => exact Option.some_inj.trans rewriting_nil_iff.symm
  | cons rule rules ih =>
    rw [apply_cons_eq_some_iff, rewriting_cons_iff]
    apply exists_congr
    intro next
    rw [Word.replaceFirst_eq_some_iff, ih]
    rfl

/-- A rule is in the store if its right side is among the alternatives of its left symbol. -/
theorem ContextFreeRules.mem_toList_iff {rules : ContextFreeRules} {rule : Rule} :
    rule ∈ rules.toList ↔ rule.right ∈ rules.alternatives rule.left := by
  obtain ⟨left, right⟩ := rule
  constructor
  · intro h
    rw [← map_filter_toList]
    exact List.mem_map.mpr ⟨⟨left, right⟩, List.mem_filter.mpr ⟨h, by simp⟩, rfl⟩
  · exact mem_toList_of_mem_alternatives

namespace Grammar

/-- One step from a word to the next one. Context-free grammars take it with a rule for a nonterminal,
matrix grammars with all rules of a matrix. -/
def Licenses (grammar : Grammar) (word next : Word) : Prop :=
  match grammar.rules with
  | .contextFree rules =>
    ∃ rule ∈ rules.toList, rule.left ∈ grammar.alphabet.nonterminals ∧ rule.Rewrites word next
  | .matrix store => ∃ matrix ∈ store.matrices, Rewriting matrix.rules word next

variable {grammar : Grammar} {word next : Word}

theorem step_iff_licenses : grammar.Step word next ↔ grammar.Licenses word next := by
  unfold Step successors Licenses
  cases grammar.rules with
  | contextFree rules =>
    refine ContextFreeRules.mem_successors_iff.trans ⟨?_, ?_⟩
    · rintro ⟨symbol, hsymbol, right, hright, hnext⟩
      exact ⟨⟨symbol, right⟩, ContextFreeRules.mem_toList_iff.mpr hright, hsymbol,
        Word.replaceFirst_eq_some_iff.mp hnext⟩
    · rintro ⟨rule, hrule, hleft, hrewrites⟩
      exact ⟨rule.left, hleft, rule.right, ContextFreeRules.mem_toList_iff.mp hrule,
        Word.replaceFirst_eq_some_iff.mpr hrewrites⟩
  | matrix store =>
    refine MatrixRules.mem_successors_iff.trans ?_
    simp only [Matrix.apply_eq_some_iff]

/-- Every step is the work of some rules of the grammar, and of one at least. -/
theorem Step.exists_rewriting (h : grammar.Step word next) :
    ∃ first rest, (∀ rule ∈ first :: rest, rule ∈ grammar.rules.allRules) ∧
      Rewriting (first :: rest) word next := by
  have hlicensed := step_iff_licenses.mp h
  unfold Licenses at hlicensed
  cases hrules : grammar.rules with
  | contextFree rules =>
    rw [hrules] at hlicensed
    obtain ⟨rule, hrule, -, hrewrites⟩ := hlicensed
    exact ⟨rule, [], List.forall_mem_singleton.mpr hrule, .rule hrewrites (.done next)⟩
  | matrix store =>
    rw [hrules] at hlicensed
    obtain ⟨matrix, hmatrix, hrewriting⟩ := hlicensed
    obtain ⟨first, rest, hsplit⟩ := List.exists_cons_of_ne_nil (store.inhabited matrix hmatrix)
    refine ⟨first, rest, fun rule hrule => ?_, hsplit ▸ hrewriting⟩
    exact RuleStore.mem_allRules_matrix hmatrix (hsplit ▸ hrule)

/-- There is no step from a word that has none of the left symbols. -/
theorem Step.exists_left_mem (h : grammar.Step word next) :
    ∃ rule ∈ grammar.rules.allRules, rule.left ∈ word := by
  obtain ⟨first, rest, hrules, hrewriting⟩ := h.exists_rewriting
  obtain ⟨_, hfirst, -⟩ := rewriting_cons_iff.mp hrewriting
  exact ⟨first, hrules first List.mem_cons_self, hfirst.left_mem⟩

theorem Step.count_le {symbol : Char} (h : grammar.Step word next)
    (hleft : ∀ rule ∈ grammar.rules.allRules, rule.left ≠ symbol) :
    word.count symbol ≤ next.count symbol := by
  obtain ⟨first, rest, hrules, hrewriting⟩ := h.exists_rewriting
  exact hrewriting.count_le fun rule hrule => hleft rule (hrules rule hrule)

theorem Step.mem_of_mem {symbol : Char} (h : grammar.Step word next)
    (hleft : ∀ rule ∈ grammar.rules.allRules, rule.left ≠ symbol) (hmem : symbol ∈ word) :
    symbol ∈ next := by
  obtain ⟨first, rest, hrules, hrewriting⟩ := h.exists_rewriting
  exact hrewriting.mem_of_mem (fun rule hrule => hleft rule (hrules rule hrule)) hmem

theorem Step.mem_or_mem_right {symbol : Char} (h : grammar.Step word next) (hmem : symbol ∈ next) :
    symbol ∈ word ∨ ∃ rule ∈ grammar.rules.allRules, symbol ∈ rule.right := by
  obtain ⟨first, rest, hrules, hrewriting⟩ := h.exists_rewriting
  apply (hrewriting.mem_or_mem_right hmem).imp_right
  rintro ⟨rule, hrule, hright⟩
  exact ⟨rule, hrules rule hrule, hright⟩

/-- A symbol that no rule takes away is kept to the end. -/
theorem mem_of_isChain {words : List Word} {symbol : Char} (h : (word :: words).IsChain grammar.Step)
    (hleft : ∀ rule ∈ grammar.rules.allRules, rule.left ≠ symbol) (hmem : symbol ∈ word) :
    ∀ w ∈ word :: words, symbol ∈ w := by
  apply h.induction
  · exact fun _ _ hstep => hstep.mem_of_mem hleft
  · exact fun _ => hmem

end Grammar
end BoundedDerivation
