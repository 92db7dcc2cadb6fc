import BoundedDerivation.Proofs.Rebuilding
import Mathlib.Data.Char
import Mathlib.Data.List.Dedup

/-! The canonical form of a definition: symbols listed once and in increasing order, rules sorted by
their left symbols with those of one symbol in the order in which they were given, matrices without
the empty ones. It is all that a grammar keeps of the definition it was built from. -/
namespace BoundedDerivation

/-- Sorted lists agree if they do so for each key. -/
theorem List.eq_of_filter_key_eq {α β : Type} [LinearOrder β] {key : α → β} {items others : List α}
    (hitems : items.Pairwise fun a b => key a ≤ key b)
    (hothers : others.Pairwise fun a b => key a ≤ key b)
    (h : ∀ k, items.filter (key · = k) = others.filter (key · = k)) : items = others := by
  have hmem : ∀ item, item ∈ items ↔ item ∈ others := fun item => by
    simpa using congrArg (item ∈ ·) (h (key item))
  induction items generalizing others with
  | nil => exact (List.eq_nil_iff_forall_not_mem.mpr fun item => by simpa using (hmem item).mpr).symm
  | cons a items ih =>
    cases others with
    | nil => exact absurd ((hmem a).mp List.mem_cons_self) List.not_mem_nil
    | cons b others =>
      obtain ⟨ha, hsorted⟩ := List.pairwise_cons.mp hitems
      obtain ⟨hb, hsorted'⟩ := List.pairwise_cons.mp hothers
      have hle : ∀ item ∈ a :: items, key a ≤ key item :=
        List.forall_mem_cons.mpr ⟨le_rfl, ha⟩
      have hge : ∀ item ∈ b :: others, key b ≤ key item :=
        List.forall_mem_cons.mpr ⟨le_rfl, hb⟩
      have hkey : key a = key b :=
        le_antisymm (hle b ((hmem b).mpr List.mem_cons_self)) (hge a ((hmem a).mp List.mem_cons_self))
      have hhead := h (key a)
      simp only [List.filter_cons, hkey, decide_true, if_true] at hhead
      obtain ⟨rfl, -⟩ := List.cons.inj hhead
      have hrest : ∀ k, items.filter (key · = k) = others.filter (key · = k) := by
        intro k
        have hk := h k
        rw [List.filter_cons, List.filter_cons] at hk
        split at hk
        · exact (List.cons.inj hk).2
        · exact hk
      have hmem : ∀ item, item ∈ items ↔ item ∈ others := fun item => by
        simpa using congrArg (item ∈ ·) (hrest (key item))
      exact congrArg (a :: ·) (ih hsorted hsorted' hrest hmem)

theorem SymbolSet.toList_ofList (symbols : List Char) :
    (ofList symbols).toList = symbols.dedup.insertionSort (· ≤ ·) := by
  refine (ofList symbols).ascending.eq_of_mem_iff ?_ fun c => ?_
  · have hsorted := List.pairwise_insertionSort (· ≤ ·) symbols.dedup
    have hdistinct : (symbols.dedup.insertionSort (· ≤ ·)).Nodup :=
      (List.perm_insertionSort _ _).nodup_iff.mpr symbols.nodup_dedup
    exact (hsorted.and hdistinct).imp fun h => lt_of_le_of_ne h.1 h.2
  · rw [List.mem_insertionSort, List.mem_dedup]
    exact mem_ofList

namespace ContextFreeRules

/-- Rules by their left symbols, and those of one symbol in their order. -/
def sortRules (rules : List Rule) : List Rule := rules.insertionSort fun a b => a.left ≤ b.left

theorem pairwise_toList (rules : ContextFreeRules) :
    rules.toList.Pairwise fun a b => a.left ≤ b.left := by
  have hascending := List.pairwise_map.mp rules.ascending
  refine List.pairwise_flatMap.mpr ⟨fun group _ => ?_, hascending.imp fun hlt a ha b hb => ?_⟩
  · exact List.pairwise_map.mpr (List.pairwise_of_forall fun _ _ => le_rfl)
  · obtain ⟨_, -, rfl⟩ := List.mem_map.mp ha
    obtain ⟨_, -, rfl⟩ := List.mem_map.mp hb
    exact le_of_lt hlt

theorem pairwise_sortRules (rules : List Rule) :
    (sortRules rules).Pairwise fun a b => a.left ≤ b.left := by
  have : Std.Total fun a b : Rule => a.left ≤ b.left := ⟨fun a b => le_total a.left b.left⟩
  have : IsTrans Rule fun a b => a.left ≤ b.left := ⟨fun _ _ _ => le_trans⟩
  exact List.pairwise_insertionSort _ _

/-- Sorting is stable. -/
theorem filter_sortRules (rules : List Rule) (symbol : Char) :
    (sortRules rules).filter (·.left = symbol) = rules.filter (·.left = symbol) := by
  have hleft : ∀ rule ∈ rules.filter (·.left = symbol), rule.left = symbol :=
    fun rule hrule => of_decide_eq_true (List.mem_filter.mp hrule).2
  have hequal : (rules.filter (·.left = symbol)).Pairwise fun a b => a.left ≤ b.left :=
    List.pairwise_of_forall_mem_list fun a ha b hb => le_of_eq ((hleft a ha).trans (hleft b hb).symm)
  have hkept := (List.sublist_insertionSort hequal List.filter_sublist).filter (·.left = symbol)
  simp only [List.filter_filter, Bool.and_self] at hkept
  have hperm : (sortRules rules).Perm rules := List.perm_insertionSort _ rules
  have hlength := (hperm.filter (·.left = symbol)).length_eq
  exact (hkept.eq_of_length hlength.symm).symm

/-- Adding rules one by one sorts them. -/
theorem toList_foldl_insert (rules : List Rule) :
    (rules.foldl insert empty).toList = sortRules rules := by
  refine List.eq_of_filter_key_eq (pairwise_toList _) (pairwise_sortRules rules) fun symbol => ?_
  have hrebuild : ∀ list : List Rule, list.filter (·.left = symbol) =
      ((list.filter (·.left = symbol)).map Rule.right).map (Rule.mk symbol) := by
    intro list
    have hsame : ∀ rule ∈ list.filter (·.left = symbol),
        (Rule.mk symbol ∘ Rule.right) rule = rule := by
      intro rule hrule
      rw [← of_decide_eq_true (List.mem_filter.mp hrule).2]
      rfl
    rw [List.map_map, List.map_congr_left hsame, List.map_id']
  rw [filter_sortRules, hrebuild, map_filter_toList, alternatives_foldl_insert, alternatives_empty,
    List.nil_append, ← hrebuild]

end ContextFreeRules

/-- The rules of a grammar are kept by symbol, its matrices as they come. -/
def DefinedRules.canonical : DefinedRules → DefinedRules
  | contextFree rules => .contextFree (ContextFreeRules.sortRules rules)
  | matrix matrices => .matrix (matrices.filter (· ≠ []))

namespace Definition

def canonical (definition : Definition) : Definition where
  nonterminals := definition.nonterminals.dedup.insertionSort (· ≤ ·)
  terminals := definition.terminals.dedup.insertionSort (· ≤ ·)
  start := definition.start
  rules := definition.rules.canonical

variable {definition : Definition} {config : Config} {grammar : Grammar}

theorem toDefined_of_store_eq {alphabet : Alphabet} {store : RuleStore}
    (h : (definition.toDraft config).store alphabet = .ok store) :
    store.toDefined = definition.rules.canonical := by
  obtain ⟨nonterminals, terminals, start, rules | matrices⟩ := definition
  · change (ContextFreeRules.ofRules alphabet rules).map RuleStore.contextFree = .ok store at h
    obtain ⟨kept, hkept, rfl⟩ := Except.map_eq_ok_iff.mp h
    obtain ⟨-, rfl⟩ := ContextFreeRules.ofRules_eq_ok_iff.mp hkept
    exact congrArg DefinedRules.contextFree (ContextFreeRules.toList_foldl_insert rules)
  · change (MatrixRules.ofMatrices (matrices.map Matrix.mk)).map RuleStore.matrix = .ok store at h
    obtain ⟨kept, hkept, rfl⟩ := Except.map_eq_ok_iff.mp h
    obtain ⟨-, hmatrices⟩ := MatrixRules.ofMatrices_eq_ok_iff.mp hkept
    change DefinedRules.matrix (kept.matrices.map Matrix.rules) = _
    rw [hmatrices, List.filter_map, List.map_map]
    exact congrArg DefinedRules.matrix (List.map_id' _)

/-- What a grammar is taken apart into is the canonical form of what it was built from. -/
theorem toDefinition_of_build (h : (definition.build config).result = .ok grammar) :
    grammar.toDefinition = definition.canonical := by
  obtain ⟨hsymbols, hstore, hstart, -, -⟩ := Draft.result_build_eq_ok_iff.mp h
  obtain ⟨halphabet, -⟩ := Alphabet.ofSymbols_eq_ok_iff.mp hsymbols
  have hrules := toDefined_of_store_eq hstore
  unfold Grammar.toDefinition canonical
  rw [halphabet, hrules, hstart, SymbolSet.toList_ofList, SymbolSet.toList_ofList]
  obtain ⟨nonterminals, terminals, start, rules | matrices⟩ := definition <;> rfl

/-- A valid grammar has nothing but its definition and its configuration. -/
theorem eq_of_toDefinition_eq {other : Grammar} (hg : grammar.Valid) (hother : other.Valid)
    (hdefinition : grammar.toDefinition = other.toDefinition)
    (hconfig : grammar.config = other.config) : grammar = other := by
  have hbuild := hg.result_build_toDefinition
  rw [hdefinition, hconfig, hother.result_build_toDefinition] at hbuild
  exact (Except.ok.inj hbuild).symm

theorem config_toDraft (definition : Definition) (config : Config) :
    (definition.toDraft config).config = config := by
  obtain ⟨_, _, _, rules | matrices⟩ := definition <;> rfl

/-- A definition that makes a grammar is read back in its canonical form, and nothing but this form
matters to the grammar. -/
theorem build_keeps_canonical_form (h : (definition.build config).result = .ok grammar) :
    grammar.toDefinition = definition.canonical ∧
      ∀ (other : Definition) (result : Grammar), (other.build config).result = .ok result →
        (grammar = result ↔ definition.canonical = other.canonical) := by
  have hgrammar := toDefinition_of_build h
  refine ⟨hgrammar, fun other result hresult => ?_⟩
  have hother := toDefinition_of_build hresult
  obtain ⟨-, -, -, hconfig, hvalid⟩ := Draft.result_build_eq_ok_iff.mp h
  obtain ⟨-, -, -, hconfig', hvalid'⟩ := Draft.result_build_eq_ok_iff.mp hresult
  rw [config_toDraft] at hconfig hconfig'
  rw [← hgrammar, ← hother]
  constructor
  · rintro rfl
    rfl
  · exact fun hsame => eq_of_toDefinition_eq hvalid hvalid' hsame (hconfig.trans hconfig'.symm)

/-- Symbols twice, and the rules of two nonterminals in turns. -/
def interleaved : Definition where
  nonterminals := ['S', 'A', 'S']
  terminals := ['b', 'a', 'b']
  start := 'S'
  rules := .contextFree
    [⟨'S', ['b']⟩, ⟨'A', ['b', 'a']⟩, ⟨'S', ['a', 'A']⟩, ⟨'A', ['a']⟩, ⟨'S', ['b']⟩]

/-- The same rules, one nonterminal after the other. -/
def gathered : Definition where
  nonterminals := ['S', 'A']
  terminals := ['a', 'b']
  start := 'S'
  rules := .contextFree
    [⟨'S', ['b']⟩, ⟨'S', ['a', 'A']⟩, ⟨'S', ['b']⟩, ⟨'A', ['b', 'a']⟩, ⟨'A', ['a']⟩]

def builtGrammar : Grammar where
  alphabet := ⟨.ofList ['A', 'S'], .ofList ['a', 'b']⟩
  start := 'S'
  rules := .contextFree <|
    [⟨'A', ['b', 'a']⟩, ⟨'A', ['a']⟩, ⟨'S', ['b']⟩, ⟨'S', ['a', 'A']⟩, ⟨'S', ['b']⟩].foldl .insert .empty
  config := {}

theorem interleaved_keeps_canonical_form :
    (interleaved.build {}).result = .ok builtGrammar ∧
      (gathered.build {}).result = .ok builtGrammar ∧
      builtGrammar.toDefinition = interleaved.canonical ∧
      interleaved.canonical = gathered.canonical := by
  have hinterleaved : (interleaved.build {}).result = .ok builtGrammar := by decide
  have hgathered : (gathered.build {}).result = .ok builtGrammar := by decide
  obtain ⟨hback, hequal⟩ := build_keeps_canonical_form hinterleaved
  exact ⟨hinterleaved, hgathered, hback, (hequal gathered builtGrammar hgathered).mp rfl⟩

end Definition
end BoundedDerivation
