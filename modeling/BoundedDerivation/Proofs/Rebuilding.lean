import BoundedDerivation.Definition.Basic
import BoundedDerivation.Proofs.Validity
import Mathlib.Data.List.Sort

/-! Building grammars from lists. What each maker accepts and what it makes is said once for each of
them. The lists that a valid grammar is taken apart into build the same grammar again: the order in
which sets and groups are kept leaves no choice. -/
namespace BoundedDerivation

namespace SymbolSet

/-- A set lists its members in increasing order, so they determine it. -/
theorem ext_mem {a b : SymbolSet} (h : ∀ x, x ∈ a ↔ x ∈ b) : a = b := by
  have hlist : a.toList = b.toList := a.ascending.eq_of_mem_iff b.ascending h
  obtain ⟨as, ha⟩ := a
  obtain ⟨bs, hb⟩ := b
  cases hlist
  rfl

@[simp] theorem ofList_toList (set : SymbolSet) : ofList set.toList = set :=
  ext_mem fun _ => mem_ofList

end SymbolSet

namespace Except

variable {ε α β : Type} {first : Except ε α} {result : β}

theorem bind_eq_ok_iff {next : α → Except ε β} :
    first >>= next = .ok result ↔ ∃ value, first = .ok value ∧ next value = .ok result := by
  cases first <;> simp [bind, Except.bind]

theorem map_eq_ok_iff {f : α → β} :
    first.map f = .ok result ↔ ∃ value, first = .ok value ∧ f value = result := by
  cases first <;> simp [Except.map]

end Except

theorem Alphabet.ofSymbols_eq_ok_iff {nonterminals terminals : List Char} {alphabet : Alphabet} :
    ofSymbols nonterminals terminals = .ok alphabet ↔
      alphabet = ⟨.ofList nonterminals, .ofList terminals⟩ ∧ alphabet.validate = .ok () := by
  simp only [ofSymbols, Except.bind_eq_ok_iff, pure, Except.pure, Except.ok.injEq]
  constructor
  · rintro ⟨_, hvalid, rfl⟩
    exact ⟨rfl, hvalid⟩
  · rintro ⟨rfl, hvalid⟩
    exact ⟨(), hvalid, rfl⟩

namespace ContextFreeRules

variable {alphabet : Alphabet}

theorem lookup_eq_some_of_mem {symbol : Char} {rights : List Word}
    {groups : List (Char × List Word)} (hascending : (groups.map Prod.fst).Pairwise (· < ·))
    (h : (symbol, rights) ∈ groups) : groups.lookup symbol = some rights := by
  induction groups with
  | nil => cases h
  | cons group rest ih =>
    obtain ⟨first, firstRights⟩ := group
    obtain ⟨hfirst, hrest⟩ := List.pairwise_cons.mp hascending
    rcases List.mem_cons.mp h with hhead | hmem
    · cases hhead
      simp
    · have hlt : first < symbol := hfirst symbol (List.mem_map_of_mem (f := Prod.fst) hmem)
      have hne : symbol ≠ first := fun he => Char.lt_irrefl _ (he ▸ hlt)
      rw [lookup_cons_ne hne]
      exact ih hrest hmem

/-- The groups are the symbols that have alternatives, with all of these. -/
theorem mem_groups_iff {rules : ContextFreeRules} {symbol : Char} {rights : List Word} :
    (symbol, rights) ∈ rules.groups ↔ rights ≠ [] ∧ rules.alternatives symbol = rights := by
  constructor
  · intro h
    have hlookup := lookup_eq_some_of_mem rules.ascending h
    exact ⟨rules.inhabited _ h, by simp [alternatives, hlookup]⟩
  · rintro ⟨hne, rfl⟩
    unfold alternatives at hne ⊢
    cases hlookup : rules.groups.lookup symbol with
    | none => simp [hlookup] at hne
    | some rights =>
      obtain ⟨before, after, hgroups, -⟩ := List.lookup_eq_some_iff.mp hlookup
      simp [hgroups]

/-- Stores with the same alternatives for every symbol are the same store. -/
theorem ext_alternatives {a b : ContextFreeRules}
    (h : ∀ symbol, a.alternatives symbol = b.alternatives symbol) : a = b := by
  have hgroups : a.groups = b.groups := by
    have ha := List.pairwise_map.mp a.ascending
    have hb := List.pairwise_map.mp b.ascending
    have : Std.Irrefl fun g h : Char × List Word => g.1 < h.1 := ⟨fun g => Char.lt_irrefl g.1⟩
    have : Std.Antisymm fun g h : Char × List Word => g.1 < h.1 :=
      ⟨fun g h hlt hgt => absurd (Char.lt_trans hlt hgt) (Char.lt_irrefl _)⟩
    refine ha.eq_of_mem_iff hb fun ⟨symbol, rights⟩ => ?_
    rw [mem_groups_iff, mem_groups_iff, h]
  obtain ⟨as, _, _⟩ := a
  obtain ⟨bs, _, _⟩ := b
  cases hgroups
  rfl

/-- Inserting rules one by one adds the right sides of a symbol to its alternatives in order. -/
theorem alternatives_foldl_insert (rules : List Rule) (store : ContextFreeRules) (symbol : Char) :
    (rules.foldl insert store).alternatives symbol =
      store.alternatives symbol ++ (rules.filter (·.left = symbol)).map Rule.right := by
  induction rules generalizing store with
  | nil => simp
  | cons rule rules ih =>
    rw [List.foldl_cons, ih, alternatives_insert, List.append_assoc]
    by_cases hleft : rule.left = symbol
    · simp [hleft]
    · simp [hleft, Ne.symm hleft]

/-- The rules of a symbol in the list of all rules are its alternatives. -/
theorem map_filter_toList (rules : ContextFreeRules) (symbol : Char) :
    (rules.toList.filter (·.left = symbol)).map Rule.right = rules.alternatives symbol := by
  have hascending := rules.ascending
  unfold toList alternatives
  generalize rules.groups = groups at hascending
  induction groups with
  | nil => rfl
  | cons group rest ih =>
    obtain ⟨first, rights⟩ := group
    obtain ⟨hfirst, hrest⟩ := List.pairwise_cons.mp hascending
    rw [List.flatMap_cons, List.filter_append, List.map_append, ih hrest]
    by_cases hs : symbol = first
    · subst hs
      have hnone : rest.lookup symbol = none := lookup_eq_none hfirst
      simp [hnone, List.filter_map, Function.comp_def]
    · simp [lookup_cons_ne hs, List.filter_map, Function.comp_def, Ne.symm hs]

/-- A store is built again from the list of its rules. -/
theorem foldl_insert_toList (rules : ContextFreeRules) : rules.toList.foldl insert empty = rules :=
  ext_alternatives fun symbol => by
    rw [alternatives_foldl_insert, alternatives_empty, List.nil_append, map_filter_toList]

/-- A rule is refused exactly if it does not pass its check. -/
theorem add_eq_ok_iff {store result : ContextFreeRules} {rule : Rule} :
    store.add alphabet rule = .ok result ↔
      check alphabet rule = .ok () ∧ result = store.insert rule := by
  simp only [add, Except.bind_eq_ok_iff, pure, Except.pure, Except.ok.injEq]
  constructor
  · rintro ⟨_, hcheck, rfl⟩
    exact ⟨hcheck, rfl⟩
  · rintro ⟨hcheck, rfl⟩
    exact ⟨(), hcheck, rfl⟩

theorem foldlM_add_eq_ok_iff {rules : List Rule} {store result : ContextFreeRules} :
    rules.foldlM (fun (store : ContextFreeRules) rule => store.add alphabet rule) store =
        .ok result ↔
      (∀ rule ∈ rules, check alphabet rule = .ok ()) ∧ result = rules.foldl insert store := by
  induction rules generalizing store with
  | nil => simp [pure, Except.pure, eq_comm]
  | cons rule rules ih =>
    simp only [List.foldlM_cons, Except.bind_eq_ok_iff, add_eq_ok_iff, ih]
    constructor
    · rintro ⟨_, ⟨hrule, rfl⟩, hrules, hresult⟩
      exact ⟨List.forall_mem_cons.mpr ⟨hrule, hrules⟩, hresult⟩
    · rintro ⟨hall, hresult⟩
      obtain ⟨hrule, hrules⟩ := List.forall_mem_cons.mp hall
      exact ⟨_, ⟨hrule, rfl⟩, hrules, hresult⟩

/-- Rules make a store if each of them passes its check, and the store takes them in one by one. -/
theorem ofRules_eq_ok_iff {rules : List Rule} {store : ContextFreeRules} :
    ofRules alphabet rules = .ok store ↔
      (∀ rule ∈ rules, check alphabet rule = .ok ()) ∧ store = rules.foldl insert empty :=
  foldlM_add_eq_ok_iff

end ContextFreeRules

namespace MatrixRules

theorem ext_matrices {a b : MatrixRules} (h : a.matrices = b.matrices) : a = b := by
  obtain ⟨as, _⟩ := a
  obtain ⟨bs, _⟩ := b
  cases h
  rfl

/-- A matrix is refused if it has an empty right side, and leaves no trace if it has no rules. -/
theorem push_eq_ok_iff {store result : MatrixRules} {matrix : Matrix} :
    store.push matrix = .ok result ↔
      (∀ rule ∈ matrix.rules, rule.right ≠ []) ∧
        result.matrices = store.matrices ++ [matrix].filter (·.rules ≠ []) := by
  have hext : ∀ other : MatrixRules, other = result ↔ result.matrices = other.matrices :=
    fun other => ⟨fun h => h ▸ rfl, fun h => (ext_matrices h).symm⟩
  unfold push push?
  by_cases hrules : matrix.rules = []
  · simp [hrules, Except.map, hext]
  · cases hempty : matrix.rules.find? (·.right = []) with
    | some rule =>
      have hright := List.find?_some hempty
      have hmem := List.mem_of_find?_eq_some hempty
      simp only [hrules, dif_neg, not_false_iff, Except.map, reduceCtorEq, false_iff, not_and]
      intro hall
      exact absurd (of_decide_eq_true hright) (hall rule hmem)
    | none =>
      have hall := List.find?_eq_none.mp hempty
      simp only [decide_eq_true_eq] at hall
      simpa [hrules, Except.map, hext] using fun _ => hall

theorem foldlM_push_eq_ok_iff {matrices : List Matrix} {store result : MatrixRules} :
    matrices.foldlM (fun (store : MatrixRules) matrix => store.push matrix) store = .ok result ↔
      (∀ matrix ∈ matrices, ∀ rule ∈ matrix.rules, rule.right ≠ []) ∧
        result.matrices = store.matrices ++ matrices.filter (·.rules ≠ []) := by
  induction matrices generalizing store with
  | nil =>
    simp only [List.foldlM_nil, pure, Except.pure, Except.ok.injEq, List.filter_nil]
    constructor
    · rintro rfl
      simp
    · rintro ⟨-, h⟩
      exact ext_matrices (by simpa using h.symm)
  | cons matrix matrices ih =>
    rw [← List.singleton_append, List.filter_append, List.singleton_append, List.foldlM_cons]
    simp only [Except.bind_eq_ok_iff, push_eq_ok_iff, ih, ← List.append_assoc]
    constructor
    · rintro ⟨next, ⟨hmatrix, hnext⟩, hmatrices, hresult⟩
      exact ⟨List.forall_mem_cons.mpr ⟨hmatrix, hmatrices⟩, hnext ▸ hresult⟩
    · rintro ⟨hall, hresult⟩
      obtain ⟨hmatrix, hmatrices⟩ := List.forall_mem_cons.mp hall
      obtain ⟨next, hnext⟩ : ∃ next : MatrixRules,
          next.matrices = store.matrices ++ [matrix].filter (·.rules ≠ []) := by
        refine ⟨⟨_, ?_⟩, rfl⟩
        refine List.forall_mem_append.mpr ⟨store.inhabited, fun m hm => ?_⟩
        exact of_decide_eq_true (List.mem_filter.mp hm).2
      exact ⟨next, ⟨hmatrix, hnext⟩, hmatrices, hnext ▸ hresult⟩

/-- Matrices make a store if none of them erases a symbol. Those without rules are left out. -/
theorem ofMatrices_eq_ok_iff {matrices : List Matrix} {store : MatrixRules} :
    ofMatrices matrices = .ok store ↔
      (∀ matrix ∈ matrices, ∀ rule ∈ matrix.rules, rule.right ≠ []) ∧
        store.matrices = matrices.filter (·.rules ≠ []) :=
  foldlM_push_eq_ok_iff

end MatrixRules

/-- A draft becomes a grammar if its symbols make an alphabet, its rules a store for the alphabet, and
all of it together a valid grammar. -/
theorem Draft.result_build_eq_ok_iff {draft : Draft} {grammar : Grammar} :
    draft.build.result = .ok grammar ↔
      Alphabet.ofSymbols draft.nonterminals draft.terminals = .ok grammar.alphabet ∧
        draft.store grammar.alphabet = .ok grammar.rules ∧ grammar.start = draft.start ∧
          grammar.config = draft.config ∧ grammar.Valid := by
  simp only [build, Checked.result_bind_eq_ok, Grammar.result_ofParts_eq_ok_iff]
  constructor
  · rintro ⟨alphabet, halphabet, rules, hrules, rfl, hvalid⟩
    exact ⟨halphabet, hrules, rfl, rfl, hvalid⟩
  · obtain ⟨alphabet, start, rules, config⟩ := grammar
    rintro ⟨halphabet, hrules, rfl, rfl, hvalid⟩
    exact ⟨alphabet, halphabet, rules, hrules, rfl, hvalid⟩

namespace Grammar

variable {grammar : Grammar}

theorem Valid.ofSymbols_eq (hg : grammar.Valid) :
    Alphabet.ofSymbols grammar.alphabet.nonterminals.toList grammar.alphabet.terminals.toList =
      .ok grammar.alphabet := by
  obtain ⟨hdisjoint, -⟩ := valid_iff.mp hg
  refine Alphabet.ofSymbols_eq_ok_iff.mpr ⟨?_, Alphabet.validate_eq_ok_iff.mpr hdisjoint⟩
  rw [SymbolSet.ofList_toList, SymbolSet.ofList_toList]

/-- What a valid grammar is taken apart into builds it again. -/
theorem Valid.result_build_toDefinition (hg : grammar.Valid) :
    (grammar.toDefinition.build grammar.config).result = .ok grammar := by
  obtain ⟨alphabet, start, rules, config⟩ := grammar
  cases rules with
  | contextFree rules =>
    obtain ⟨-, -, hvalid⟩ := valid_iff.mp hg
    refine Draft.result_build_eq_ok_iff.mpr ⟨hg.ofSymbols_eq, ?_, rfl, rfl, hg⟩
    have hstore : ContextFreeRules.ofRules alphabet rules.toList = .ok rules :=
      ContextFreeRules.ofRules_eq_ok_iff.mpr
        ⟨ContextFreeRules.validate_eq_ok_iff.mp hvalid, rules.foldl_insert_toList.symm⟩
    change (ContextFreeRules.ofRules alphabet rules.toList).map RuleStore.contextFree = _
    rw [hstore]
    rfl
  | matrix store =>
    refine Draft.result_build_eq_ok_iff.mpr ⟨hg.ofSymbols_eq, ?_, rfl, rfl, hg⟩
    have hmatrices : (store.matrices.map Matrix.rules).map Matrix.mk = store.matrices := by
      rw [List.map_map]
      exact List.map_id store.matrices
    have hstore : MatrixRules.ofMatrices store.matrices = .ok store := by
      refine MatrixRules.ofMatrices_eq_ok_iff.mpr ⟨fun m hm rule hrule => ?_, ?_⟩
      · exact hg.right_ne_nil rule (RuleStore.mem_allRules_matrix hm hrule)
      · exact (List.filter_eq_self.mpr fun m hm => decide_eq_true (store.inhabited m hm)).symm
    change (MatrixRules.ofMatrices ((store.matrices.map Matrix.rules).map Matrix.mk)).map
      RuleStore.matrix = _
    rw [hmatrices, hstore]
    rfl

end Grammar
end BoundedDerivation
