import BoundedDerivation.Proofs.LineForm.Items

/-! Grammars in five lines. Such a text has no escapes, so not every grammar survives being written
down. What it takes is said here for grammars whose symbols are free of blanks and separators: none of
the five lines may be empty or look like a comment, and no right side may hold an arrow. Without that
the text is refused. It is never read as another grammar. -/
namespace BoundedDerivation

namespace ContextFreeRules

theorem length_toList (rules : ContextFreeRules) : rules.toList.length = rules.size := by
  unfold toList size
  generalize rules.groups = groups
  induction groups with
  | nil => rfl
  | cons group rest ih => simp [groupsSize, ← ih]

end ContextFreeRules

/-- Since no matrix is empty, a store without rules is an empty one. -/
theorem RuleStore.head?_allRules_eq_none_iff {store : RuleStore} :
    store.allRules.head? = none ↔ store.isEmpty := by
  rw [List.head?_eq_none_iff]
  cases store with
  | contextFree rules =>
    simp [allRules, isEmpty, RuleStore.size, ← ContextFreeRules.length_toList]
  | matrix store =>
    have hinhabited := store.inhabited
    simp only [allRules, List.flatMap_eq_nil_iff, isEmpty, RuleStore.size, MatrixRules.size,
      beq_iff_eq, List.length_eq_zero_iff]
    constructor
    · intro h
      exact List.eq_nil_iff_forall_not_mem.mpr fun m hm => hinhabited m hm (h m hm)
    · intro h
      simp [h]

namespace Grammar

/-- No symbol that is declared or stands in a rule is blank or separates items, and in matrices none
is a bar. -/
structure IsPlain (grammar : Grammar) : Prop where
  nonterminals : Text.IsPlain grammar.alphabet.nonterminals.toList
  terminals : Text.IsPlain grammar.alphabet.terminals.toList
  rules : ∀ rule ∈ grammar.rules.allRules, Text.IsPlain (rule.left :: rule.right)
  matrices : grammar.kind = .matrix → ∀ rule ∈ grammar.rules.allRules, '|' ∉ rule.left :: rule.right

/-- All five lines of the written form are there to a reader: none is empty or starts like a comment.
Symbols are listed in increasing order, so a line of them starts with the least one. -/
structure HasLines (grammar : Grammar) : Prop where
  terminals_ne_nil : grammar.alphabet.terminals.toList ≠ []
  rules_inhabited : grammar.rules.isEmpty = false
  nonterminals_head : grammar.alphabet.nonterminals.toList.head? ≠ some '#'
  terminals_head : grammar.alphabet.terminals.toList.head? ≠ some '#'
  rules_head : grammar.rules.allRules.head?.map Rule.left ≠ some '#'
  start_ne : grammar.start ≠ '#'

/-- All arrows of the written form are those of rules, too. -/
structure IsLegible (grammar : Grammar) : Prop extends HasLines grammar where
  no_arrow : ∀ rule ∈ grammar.rules.allRules, ¬ LineForm.arrow <:+: rule.right

instance (grammar : Grammar) : Decidable grammar.IsPlain :=
  decidable_of_iff (_ ∧ _ ∧ _ ∧ _)
    ⟨fun ⟨h₁, h₂, h₃, h₄⟩ => ⟨h₁, h₂, h₃, h₄⟩, fun ⟨h₁, h₂, h₃, h₄⟩ => ⟨h₁, h₂, h₃, h₄⟩⟩

instance (grammar : Grammar) : Decidable grammar.HasLines :=
  decidable_of_iff (_ ∧ _ ∧ _ ∧ _ ∧ _ ∧ _)
    ⟨fun ⟨h₁, h₂, h₃, h₄, h₅, h₆⟩ => ⟨h₁, h₂, h₃, h₄, h₅, h₆⟩,
      fun ⟨h₁, h₂, h₃, h₄, h₅, h₆⟩ => ⟨h₁, h₂, h₃, h₄, h₅, h₆⟩⟩

instance (grammar : Grammar) : Decidable grammar.IsLegible :=
  decidable_of_iff (grammar.HasLines ∧ _) ⟨fun ⟨h₁, h₂⟩ => ⟨h₁, h₂⟩, fun ⟨h₁, h₂⟩ => ⟨h₁, h₂⟩⟩

namespace IsPlain

variable {grammar : Grammar} (hplain : grammar.IsPlain)
include hplain

theorem start (hg : grammar.Valid) : Text.IsPlain [grammar.start] :=
  Text.isPlain_singleton hplain.nonterminals (valid_iff.mp hg).2.1

theorem rule (hg : grammar.Valid) : ∀ rule ∈ grammar.rules.allRules, rule.IsPlain :=
  fun rule hrule => ⟨hplain.rules rule hrule, hg.right_ne_nil rule hrule⟩

end IsPlain
end Grammar

namespace LineForm

theorem Line.isSignificant_iff {line : Line} :
    line.isSignificant ↔ line.content.head? ≠ none ∧ line.content.head? ≠ some '#' := by
  simp [isSignificant]

theorem head?_writeSymbols (symbols : SymbolSet) :
    (writeSymbols symbols).head? = symbols.toList.head? := by
  unfold writeSymbols
  cases symbols.toList with
  | nil => rfl
  | cons symbol more => exact Text.head?_join (by simp) _ _

theorem head?_writeRules (rules : List Rule) :
    (writeRules rules).head? = rules.head?.map Rule.left := by
  unfold writeRules
  cases rules with
  | nil => rfl
  | cons rule more => exact Text.head?_join (by simp [Rule.written]) _ _

theorem head?_writeStore (store : RuleStore) :
    (writeStore store).head? = store.allRules.head?.map Rule.left := by
  cases store with
  | contextFree rules => exact head?_writeRules rules.toList
  | matrix store =>
    obtain ⟨matrices, hinhabited⟩ := store
    cases matrices with
    | nil => rfl
    | cons matrix more =>
      obtain ⟨rule, rules, hrules⟩ :=
        List.exists_cons_of_ne_nil (hinhabited matrix List.mem_cons_self)
      have hhead := head?_writeRules matrix.rules
      have hne : writeRules matrix.rules ≠ [] := by
        intro h
        rw [h, hrules] at hhead
        cases hhead
      rw [writeStore, List.map_cons, Text.head?_join hne, hhead]
      simp [RuleStore.allRules, hrules]

/-- Nothing gets lost when a line is trimmed, and it is one line. -/
structure IsLine (text : Text) : Prop where
  trim_eq : Text.trim text = text
  unbroken : '\n' ∉ text

theorem not_mem_of_plain {text : Text} (h : Text.IsPlain text) : '\n' ∉ text :=
  fun hmem => absurd (h _ hmem).1 (by decide)

theorem isLine_of_plain {text : Text} (hne : text ≠ []) (h : Text.IsPlain text) : IsLine text :=
  ⟨(Text.Solid.of_plain hne h).trim_eq, not_mem_of_plain h⟩

theorem isLine_writeSymbols {symbols : SymbolSet} (h : Text.IsPlain symbols.toList) :
    IsLine (writeSymbols symbols) := by
  have hpieces := isPlain_pieces h
  constructor
  · exact Text.trim_join _ fun piece hp => .of_plain (hpieces piece hp).1 (hpieces piece hp).2
  · exact Text.not_mem_join (by decide) fun piece hp => not_mem_of_plain (hpieces piece hp).2

theorem unbroken_writeRules {rules : List Rule} (h : ∀ rule ∈ rules, rule.IsPlain) :
    '\n' ∉ writeRules rules :=
  not_mem_writeRules (by decide) fun rule hrule => not_mem_of_plain (h rule hrule).written

theorem isLine_writeStore {store : RuleStore} (h : ∀ rule ∈ store.allRules, rule.IsPlain) :
    IsLine (writeStore store) := by
  cases store with
  | contextFree rules => exact ⟨Text.trim_join _ (solid_written h), unbroken_writeRules h⟩
  | matrix store =>
    have hrules : ∀ matrix ∈ store.matrices, ∀ rule ∈ matrix.rules, rule.IsPlain :=
      fun matrix hmatrix rule hrule => h rule (RuleStore.mem_allRules_matrix hmatrix hrule)
    constructor
    · refine Text.trim_join _ ?_
      rw [List.forall_mem_map]
      intro matrix hmatrix
      have hne : matrix.rules.map Rule.written ≠ [] := by simpa using store.inhabited matrix hmatrix
      exact .join _ hne (solid_written (hrules matrix hmatrix))
    · refine Text.not_mem_join (by decide) ?_
      rw [List.forall_mem_map]
      exact fun matrix hmatrix => unbroken_writeRules (hrules matrix hmatrix)

/-- Lines as they are numbered in a text of nothing else. -/
def numbered (contents : List Text) : List Line :=
  (contents.zipIdx 1).map fun (content, number) => ⟨number, content⟩

theorem significant_of_isLine {contents : List Text} (h : ∀ content ∈ contents, IsLine content) :
    significant (contents.flatMap (· ++ ['\n'])) = (numbered contents).filter Line.isSignificant := by
  unfold significant numbered
  rw [Text.lines_flatMap fun content hcontent => (h content hcontent).unbroken]
  congr 1
  refine List.map_congr_left fun ⟨content, number⟩ hmem => ?_
  change (⟨number, Text.trim content⟩ : Line) = ⟨number, content⟩
  rw [(h content (List.fst_mem_of_mem_zipIdx hmem)).trim_eq]

theorem readKind_name (kind : Kind) : readKind kind.name.toList = .ok kind := by
  cases kind <;> decide

/-- Once the other four lines are read, all depends on the one that holds the rules. -/
theorem readDraft_of_tokens {first second third fourth fifth : Line} {kind : Kind}
    {nonterminals terminals : List Char} {start : Char} {config : Config}
    (hkind : readKind first.content = .ok kind)
    (hnonterminals : readSymbols second.content = .ok nonterminals)
    (hterminals : readSymbols third.content = .ok terminals)
    (hstart : readSymbol fifth.content = .ok start) :
    readDraft first second third fourth fifth config =
      match kind with
      | .contextFree => (readRules fourth.number fourth.content).map fun rules =>
          { kind, start, nonterminals, terminals, rules, config }
      | .matrix => (readMatrices fourth).map fun matrices =>
          { kind, start, nonterminals, terminals, matrices, config } := by
  simp only [readDraft, hkind, hnonterminals, hterminals, hstart]
  cases kind <;> rfl

section
variable {grammar : Grammar} (hg : grammar.Valid) (hplain : grammar.IsPlain)
include hg hplain

theorem isLine_writtenLines : ∀ content ∈ writtenLines grammar, IsLine content := by
  simp only [writtenLines, List.forall_mem_cons, List.not_mem_nil, false_implies, implies_true,
    and_true]
  refine ⟨?_, isLine_writeSymbols hplain.nonterminals, isLine_writeSymbols hplain.terminals,
    isLine_writeStore (hplain.rule hg), isLine_of_plain (by simp) (hplain.start hg)⟩
  cases grammar.kind <;> exact ⟨by decide, by decide⟩

omit hplain in
/-- The line of nonterminals is never empty, since the start symbol is one of them. -/
theorem isSignificant_writtenLines_iff :
    (∀ line ∈ numbered (writtenLines grammar), line.isSignificant) ↔ grammar.HasLines := by
  obtain ⟨-, hstart, -⟩ := Grammar.valid_iff.mp hg
  have hnonterminals : grammar.alphabet.nonterminals.toList.head? ≠ none := by
    rw [Ne, List.head?_eq_none_iff]
    exact List.ne_nil_of_mem hstart
  have hkind : grammar.kind.name.toList.head? ≠ none ∧
      grammar.kind.name.toList.head? ≠ some '#' := by
    cases grammar.kind <;> exact ⟨by decide, by decide⟩
  have hrules : grammar.rules.allRules.head?.map Rule.left ≠ none ↔
      grammar.rules.isEmpty = false := by
    rw [Ne, Option.map_eq_none_iff, RuleStore.head?_allRules_eq_none_iff, Bool.not_eq_true]
  have hterminals : grammar.alphabet.terminals.toList.head? ≠ none ↔
      grammar.alphabet.terminals.toList ≠ [] := not_congr List.head?_eq_none_iff
  simp only [numbered, writtenLines, List.zipIdx_cons, List.zipIdx_nil, List.map_cons, List.map_nil,
    List.forall_mem_cons, Line.isSignificant_iff, head?_writeSymbols, head?_writeStore, hrules,
    hterminals, List.head?_cons]
  constructor
  · rintro ⟨-, ⟨-, hn⟩, ⟨hne, ht⟩, ⟨hinhabited, hr⟩, ⟨-, hs⟩, -⟩
    exact ⟨hne, hinhabited, hn, ht, hr, fun h => hs (h ▸ rfl)⟩
  · rintro ⟨hne, hinhabited, hn, ht, hr, hs⟩
    exact ⟨hkind, ⟨hnonterminals, hn⟩, ⟨hne, ht⟩, ⟨hinhabited, hr⟩,
      ⟨nofun, fun h => hs (Option.some.inj h)⟩, nofun⟩

/-- The five lines give the draft of the definition they were written from, or none. -/
theorem readDraft_eq_ok_iff (hrules : grammar.rules.isEmpty = false) {draft : Draft} :
    readDraft ⟨1, grammar.kind.name.toList⟩ ⟨2, writeSymbols grammar.alphabet.nonterminals⟩
        ⟨3, writeSymbols grammar.alphabet.terminals⟩ ⟨4, writeStore grammar.rules⟩
        ⟨5, [grammar.start]⟩ grammar.config = .ok draft ↔
      draft = grammar.toDefinition.toDraft grammar.config ∧
        ∀ rule ∈ grammar.rules.allRules, ¬ arrow <:+: rule.right := by
  have hall := hplain.rule hg
  have hbar := hplain.matrices
  rw [readDraft_of_tokens (readKind_name _) (readSymbols_writeSymbols hplain.nonterminals)
    (readSymbols_writeSymbols hplain.terminals) (readSymbol_singleton (hplain.start hg))]
  obtain ⟨alphabet, start, store, config⟩ := grammar
  cases store with
  | contextFree rules =>
    have hread := readRules_writeRules_eq_ok_iff hall 4
    dsimp only [RuleStore.allRules] at hread ⊢
    change (readRules 4 (writeRules rules.toList)).map _ = .ok draft ↔ _
    simp only [Except.map_eq_ok_iff, hread]
    constructor
    · rintro ⟨_, ⟨rfl, hgood⟩, rfl⟩
      exact ⟨rfl, hgood⟩
    · rintro ⟨rfl, hgood⟩
      exact ⟨_, ⟨rfl, hgood⟩, rfl⟩
  | matrix store =>
    simp only [RuleStore.allRules, List.mem_flatMap, forall_exists_index, and_imp] at hall hbar ⊢
    have hne : store.matrices ≠ [] := by
      rintro h
      simp [RuleStore.isEmpty, RuleStore.size, MatrixRules.size, h] at hrules
    have hread := readMatrices_writeStore_eq_ok_iff hne (fun m hm r hr => hall r m hm hr)
      (fun m hm r hr => hbar rfl r m hm hr) 4
    change (readMatrices ⟨4, writeStore (.matrix store)⟩).map _ = .ok draft ↔ _
    simp only [Except.map_eq_ok_iff, hread]
    constructor
    · rintro ⟨_, ⟨rfl, hgood⟩, rfl⟩
      exact ⟨rfl, fun rule m hm hrule => hgood m hm rule hrule⟩
    · rintro ⟨rfl, hgood⟩
      exact ⟨_, ⟨rfl, fun m hm rule hrule => hgood rule m hm hrule⟩, rfl⟩

/-- Reading a written grammar gives that grammar if its text is legible, and no grammar otherwise. -/
theorem result_read_write_eq_ok_iff {result : Grammar} :
    (read (write grammar) grammar.config).result = .ok result ↔
      result = grammar ∧ grammar.IsLegible := by
  have hsignificant : significant (write grammar) = _ :=
    significant_of_isLine (isLine_writtenLines hg hplain)
  have hlines := isSignificant_writtenLines_iff hg
  unfold read
  rw [hsignificant]
  by_cases hall : ∀ line ∈ numbered (writtenLines grammar), line.isSignificant
  · have hdraft := @readDraft_eq_ok_iff grammar hg hplain (hlines.mp hall).rules_inhabited
    have hbuild : ((grammar.toDefinition.toDraft grammar.config).build).result = .ok grammar :=
      hg.result_build_toDefinition
    rw [List.filter_eq_self.mpr hall]
    simp only [numbered, writtenLines, List.zipIdx_cons, List.zipIdx_nil, List.map_cons, List.map_nil,
      Checked.result_bind_eq_ok]
    constructor
    · rintro ⟨draft, hread, hresult⟩
      obtain ⟨rfl, harrows⟩ := hdraft.mp hread
      rw [hbuild] at hresult
      exact ⟨(Except.ok.inj hresult).symm, hlines.mp hall, harrows⟩
    · rintro ⟨rfl, hlegible⟩
      exact ⟨_, hdraft.mpr ⟨rfl, hlegible.no_arrow⟩, hbuild⟩
  · have hfew : ((numbered (writtenLines grammar)).filter Line.isSignificant).length < 5 :=
      Nat.lt_of_le_of_ne (List.length_filter_le ..) (mt List.length_filter_eq_length_iff.mp hall)
    split
    · rename_i hfive
      rw [hfive] at hfew
      simp at hfew
      omega
    · simp only [Checked.fail, reduceCtorEq, false_iff, not_and]
      rintro rfl hlegible
      exact hall (hlines.mpr hlegible.toHasLines)

end

end LineForm

namespace Grammar

/-- A legible text gives the grammar back that was written. Any other one is refused. -/
theorem text_rebuilds_or_fails {grammar : Grammar} (hg : grammar.Valid) (hplain : grammar.IsPlain) :
    (grammar.IsLegible →
        (LineForm.read (LineForm.write grammar) grammar.config).result = .ok grammar) ∧
      (¬ grammar.IsLegible →
        ∃ error, (LineForm.read (LineForm.write grammar) grammar.config).result = .error error) := by
  have hread := @LineForm.result_read_write_eq_ok_iff grammar hg hplain
  constructor
  · exact fun hlegible => hread.mpr ⟨rfl, hlegible⟩
  · intro hillegible
    cases hresult : (LineForm.read (LineForm.write grammar) grammar.config).result with
    | ok result => exact absurd (hread.mp hresult).2 hillegible
    | error error => exact ⟨error, rfl⟩

/-- Hash signs, hyphens and angle brackets, but nowhere where they would mean something. -/
def punctuated : Grammar where
  alphabet := ⟨.ofList ['!', '-'], .ofList ['"', '#', '>']⟩
  start := '!'
  rules := .contextFree <|
    [⟨'!', ['-', '#', '-']⟩, ⟨'-', ['>']⟩, ⟨'-', ['"', '#']⟩].foldl .insert .empty
  config := { maxDepth := 4, maxLength := 5 }

theorem text_rebuilds_punctuated :
    punctuated.Valid ∧ punctuated.IsPlain ∧
      (LineForm.read (LineForm.write punctuated) punctuated.config).result = .ok punctuated := by
  have hg : punctuated.Valid := by decide
  have hplain : punctuated.IsPlain := by decide
  exact ⟨hg, hplain, (text_rebuilds_or_fails hg hplain).1 (by decide)⟩

end Grammar
end BoundedDerivation
