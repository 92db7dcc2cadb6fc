import BoundedDerivation.Grammar.Basic

/-! What validation decides. A grammar is valid if no symbol is declared twice, its start symbol is
a nonterminal and its rules pass the check that their kind asks for. -/
namespace BoundedDerivation

namespace Alphabet

variable {alphabet : Alphabet}

theorem isNonterminal_iff {symbol : Char} :
    alphabet.isNonterminal symbol = true ↔ symbol ∈ alphabet.nonterminals := decide_eq_true_iff

theorem isTerminal_iff {symbol : Char} :
    alphabet.isTerminal symbol = true ↔ symbol ∈ alphabet.terminals := decide_eq_true_iff

theorem isTerminalWord_iff {word : Word} :
    alphabet.isTerminalWord word = true ↔ ∀ symbol ∈ word, symbol ∈ alphabet.terminals := by
  simp [isTerminalWord, isTerminal_iff]

theorem validate_eq_ok_iff :
    alphabet.validate = .ok () ↔ ∀ symbol ∈ alphabet.nonterminals, symbol ∉ alphabet.terminals := by
  unfold validate
  cases h : alphabet.nonterminals.firstShared alphabet.terminals with
  | none =>
    have hnone := List.find?_eq_none.mp h
    simpa [SymbolSet.mem_def] using hnone
  | some shared =>
    have hmem := List.mem_of_find?_eq_some h
    have hshared := List.find?_some h
    simp only [reduceCtorEq, false_iff]
    intro hdisjoint
    exact hdisjoint shared hmem (of_decide_eq_true hshared)

theorem firstUndeclared_eq_none_iff {word : Word} :
    alphabet.firstUndeclared word = none ↔ ∀ symbol ∈ word, alphabet.declares symbol := by
  simp [firstUndeclared]

end Alphabet

theorem Except.forM_eq_ok_iff {ε α : Type} {check : α → Except ε Unit} {items : List α} :
    items.forM check = .ok () ↔ ∀ item ∈ items, check item = .ok () := by
  induction items with
  | nil => simp [pure, Except.pure]
  | cons item items ih =>
    change check item >>= (fun _ => items.forM check) = .ok () ↔ _
    rw [List.forall_mem_cons]
    cases h : check item with
    | error e => simp [bind, Except.bind]
    | ok _ => simpa [bind, Except.bind] using ih

theorem Checked.result_bind_const_eq_ok_iff {α : Type} {first : Checked Unit} {later : Checked α}
    {value : α} :
    (first >>= fun _ => later).result = .ok value ↔
      first.result = .ok () ∧ later.result = .ok value := by
  rw [result_bind_eq_ok]
  constructor
  · rintro ⟨⟨⟩, h⟩
    exact h
  · intro h
    exact ⟨(), h⟩

theorem Checked.result_forM_eq_ok_iff {α : Type} {check : α → Checked Unit} {items : List α} :
    (items.forM check).result = .ok () ↔ ∀ item ∈ items, (check item).result = .ok () := by
  induction items with
  | nil => simp
  | cons item items ih =>
    change (check item >>= fun _ => items.forM check).result = .ok () ↔ _
    rw [List.forall_mem_cons, Checked.result_bind_const_eq_ok_iff, ih]

namespace ContextFreeRules

variable {rules : ContextFreeRules} {alphabet : Alphabet}

theorem check_eq_ok_iff {rule : Rule} :
    check alphabet rule = .ok () ↔
      alphabet.isNonterminal rule.left ∧ rule.right ≠ [] ∧
        ∀ symbol ∈ rule.right, alphabet.declares symbol := by
  rw [← Alphabet.firstUndeclared_eq_none_iff]
  unfold check
  cases hl : alphabet.isNonterminal rule.left with
  | false => simp
  | true =>
    by_cases hr : rule.right = []
    · simp [hr]
    · cases hu : alphabet.firstUndeclared rule.right <;> simp [hr]

theorem validate_eq_ok_iff :
    rules.validate alphabet = .ok () ↔ ∀ rule ∈ rules.toList, check alphabet rule = .ok () :=
  Except.forM_eq_ok_iff

/-- A symbol's alternatives are the right sides of the rules that it is the left side of. -/
theorem mem_toList_of_mem_alternatives {symbol : Char} {right : Word}
    (h : right ∈ rules.alternatives symbol) : ⟨symbol, right⟩ ∈ rules.toList := by
  unfold alternatives at h
  cases hl : rules.groups.lookup symbol with
  | none => simp [hl] at h
  | some rights =>
    obtain ⟨before, after, hgroups, -⟩ := List.lookup_eq_some_iff.mp hl
    have hmem : (symbol, rights) ∈ rules.groups := by simp [hgroups]
    rw [hl] at h
    exact List.mem_flatMap.mpr ⟨_, hmem, List.mem_map_of_mem h⟩

end ContextFreeRules

namespace MatrixRules

variable {store : MatrixRules} {alphabet : Alphabet} {strict : Bool}

theorem result_refuseOrWarn_eq_ok_iff {error : GrammarError} {warning : MatrixWarning} :
    (refuseOrWarn strict error warning).result = .ok () ↔ strict = false := by
  cases strict <;> simp [refuseOrWarn, Checked.fail, Checked.tell]

/-- Both modes refuse an empty right side. Symbols only matter to the strict one. -/
theorem result_checkRule_eq_ok_iff {rule : Rule} :
    (checkRule alphabet strict rule).result = .ok () ↔
      rule.right ≠ [] ∧ (strict → alphabet.isNonterminal rule.left ∧
        ∀ symbol ∈ rule.right, alphabet.declares symbol) := by
  rw [← Alphabet.firstUndeclared_eq_none_iff]
  unfold checkRule
  by_cases hr : rule.right = []
  · simp [hr, Checked.fail]
  · simp only [hr, if_false, ne_eq, not_false_iff, true_and]
    cases hl : alphabet.isNonterminal rule.left <;>
      cases hu : alphabet.firstUndeclared rule.right <;>
      simp [Checked.result_bind_const_eq_ok_iff, result_refuseOrWarn_eq_ok_iff]

theorem result_validate_eq_ok_iff :
    (store.validate alphabet strict).result = .ok () ↔
      ∀ matrix ∈ store.matrices, ∀ rule ∈ matrix.rules,
        (checkRule alphabet strict rule).result = .ok () := by
  unfold validate
  simp only [Checked.result_forM_eq_ok_iff]

end MatrixRules

/-- All rules of a store, in the order in which it keeps them. -/
def RuleStore.allRules : RuleStore → List Rule
  | contextFree rules => rules.toList
  | matrix store => store.matrices.flatMap Matrix.rules

theorem RuleStore.mem_allRules_matrix {store : MatrixRules} {matrix : Matrix} {rule : Rule}
    (hmatrix : matrix ∈ store.matrices) (hrule : rule ∈ matrix.rules) :
    rule ∈ (RuleStore.matrix store).allRules :=
  List.mem_flatMap.mpr ⟨matrix, hmatrix, hrule⟩

namespace Grammar

/-- A grammar that passes its own validation, as every grammar does that its makers hand out. -/
structure Valid (grammar : Grammar) : Prop where
  accepted : grammar.validate.result = .ok ()

instance (grammar : Grammar) : Decidable grammar.Valid :=
  match h : grammar.validate.result with
  | .ok () => isTrue ⟨h⟩
  | .error _ => isFalse fun hg => by simp [hg.accepted] at h

theorem valid_iff {grammar : Grammar} :
    grammar.Valid ↔
      (∀ symbol ∈ grammar.alphabet.nonterminals, symbol ∉ grammar.alphabet.terminals) ∧
      grammar.start ∈ grammar.alphabet.nonterminals ∧
      (grammar.rules.validate grammar.alphabet grammar.config.strictMatrices).result = .ok () := by
  have hvalid : grammar.Valid ↔ grammar.validate.result = .ok () := ⟨Valid.accepted, Valid.mk⟩
  rw [hvalid, ← Alphabet.validate_eq_ok_iff, ← Alphabet.isNonterminal_iff]
  unfold validate
  cases ha : grammar.alphabet.validate with
  | error e => simp [liftM, monadLift, MonadLift.monadLift, Checked.ofExcept]
  | ok _ =>
    cases hs : grammar.alphabet.isNonterminal grammar.start with
    | false => simp [Checked.result_bind_eq_ok, Checked.fail]
    | true => simp [liftM, monadLift, MonadLift.monadLift, Checked.ofExcept]

/-- No rule of a valid grammar erases a symbol, whatever its kind and however strict its validation. -/
theorem Valid.right_ne_nil {grammar : Grammar} (hg : grammar.Valid) :
    ∀ rule ∈ grammar.rules.allRules, rule.right ≠ [] := by
  obtain ⟨-, -, hvalid⟩ := valid_iff.mp hg
  intro rule hrule
  cases hrules : grammar.rules with
  | contextFree rules =>
    rw [hrules] at hvalid hrule
    have hcheck := ContextFreeRules.validate_eq_ok_iff.mp hvalid rule hrule
    exact (ContextFreeRules.check_eq_ok_iff.mp hcheck).2.1
  | matrix store =>
    rw [hrules] at hvalid hrule
    obtain ⟨matrix, hmatrix, hrule⟩ := List.mem_flatMap.mp hrule
    have hcheck := MatrixRules.result_validate_eq_ok_iff.mp hvalid matrix hmatrix rule hrule
    exact (MatrixRules.result_checkRule_eq_ok_iff.mp hcheck).1

/-- Putting a grammar together succeeds exactly when the parts make a valid one. -/
theorem result_ofParts_eq_ok_iff {alphabet : Alphabet} {start : Char} {rules : RuleStore}
    {config : Config} {grammar : Grammar} :
    (ofParts alphabet start rules config).result = .ok grammar ↔
      grammar = ⟨alphabet, start, rules, config⟩ ∧ grammar.Valid := by
  simp only [ofParts, Checked.result_bind_eq_ok, Checked.pure_def, Except.ok.injEq]
  constructor
  · rintro ⟨_, hvalid, rfl⟩
    exact ⟨rfl, ⟨hvalid⟩⟩
  · rintro ⟨rfl, hvalid⟩
    exact ⟨(), hvalid.accepted, rfl⟩

end Grammar
end BoundedDerivation
