import BoundedDerivation.Proofs.Rewriting
import BoundedDerivation.Proofs.Search.Guidance
import BoundedDerivation.Proofs.Search.Outcome

/-! Undeclared symbols in matrices. A symbol that no rule rewrites stays in a word for ever, and one
that no rule brings in never gets there. So as long as every undeclared symbol is of one of these two
sorts, a matrix that mentions one takes part in no derivation. A symbol that is brought in by one rule
and taken away by another is of neither sort, and derivations do pass through it. -/
namespace BoundedDerivation

namespace Word

variable {word result right : Word} {c symbol : Char}

theorem mem_or_mem_of_replaceFirst (h : word.replaceFirst symbol right = some result)
    (hc : c ∈ result) : c ∈ word ∨ c ∈ right := by
  obtain ⟨before, after, -, rfl, rfl⟩ := replaceFirst_eq_some_iff.mp h
  simp only [List.mem_append, List.mem_cons] at hc ⊢
  tauto

theorem mem_replaceFirst_of_mem_right (h : word.replaceFirst symbol right = some result)
    (hc : c ∈ right) : c ∈ result := by
  obtain ⟨before, after, -, rfl, rfl⟩ := replaceFirst_eq_some_iff.mp h
  simp [hc]

end Word

/-- The word is made of declared symbols. -/
def Alphabet.DeclaresAll (alphabet : Alphabet) (word : Word) : Prop :=
  ∀ c ∈ word, alphabet.declares c

instance (alphabet : Alphabet) (word : Word) : Decidable (alphabet.DeclaresAll word) :=
  List.decidableBAll _ word

/-- No undeclared symbol is brought in by one of the rules and taken away by the same or another. -/
def Alphabet.NoRelay (alphabet : Alphabet) (rules : List Rule) : Prop :=
  ∀ rule ∈ rules, ∀ other ∈ rules, other.left ∈ rule.right → alphabet.declares other.left

instance (alphabet : Alphabet) (rules : List Rule) : Decidable (alphabet.NoRelay rules) :=
  inferInstanceAs (Decidable (∀ rule ∈ rules, ∀ other ∈ rules, other.left ∈ rule.right → _))

namespace Matrix

variable {alphabet : Alphabet} {rules : List Rule} {rule : Rule} {matrix : Matrix}
  {word result : Word} {c : Char}

theorem mem_of_apply (h : matrix.apply word = some result) (hc : c ∈ word)
    (hleft : ∀ rule ∈ matrix.rules, rule.left ≠ c) : c ∈ result :=
  (apply_eq_some_iff.mp h).mem_of_mem hleft hc

theorem mem_or_mem_right_of_apply (h : matrix.apply word = some result) (hc : c ∈ result) :
    c ∈ word ∨ ∃ rule ∈ matrix.rules, c ∈ rule.right :=
  (apply_eq_some_iff.mp h).mem_or_mem_right hc

/-- Both sides of every rule are made of declared symbols. -/
def IsDeclared (alphabet : Alphabet) (matrix : Matrix) : Prop :=
  ∀ rule ∈ matrix.rules, alphabet.DeclaresAll (rule.left :: rule.right)

instance (alphabet : Alphabet) : DecidablePred (IsDeclared alphabet) := fun matrix =>
  inferInstanceAs (Decidable (∀ rule ∈ matrix.rules, _))

/-- Between words of declared symbols no matrix gets by with others. -/
theorem isDeclared_of_apply (hrelay : alphabet.NoRelay matrix.rules)
    (h : matrix.apply word = some result) (hword : alphabet.DeclaresAll word)
    (hresult : alphabet.DeclaresAll result) : matrix.IsDeclared alphabet := by
  obtain ⟨rules⟩ := matrix
  induction rules generalizing word with
  | nil => exact fun _ hrule => absurd hrule List.not_mem_nil
  | cons rule rules ih =>
    obtain ⟨next, hnext, hlater⟩ := apply_cons_eq_some_iff.mp h
    have hleft : alphabet.declares rule.left := hword _ (Word.mem_of_replaceFirst hnext)
    have hright : alphabet.DeclaresAll rule.right := by
      intro c hc
      by_contra hundeclared
      -- nothing takes the symbol away again, so it would be left in the result
      have hkept : ∀ other ∈ rules, other.left ≠ c := by
        rintro other hother rfl
        exact hundeclared
          (hrelay rule List.mem_cons_self other (List.mem_cons_of_mem _ hother) hc)
      have hmem := Word.mem_replaceFirst_of_mem_right hnext hc
      exact hundeclared (hresult c (mem_of_apply hlater hmem hkept))
    have hdeclared : alphabet.DeclaresAll next := by
      intro c hc
      rcases Word.mem_or_mem_of_replaceFirst hnext hc with hmem | hmem
      · exact hword c hmem
      · exact hright c hmem
    have hrest : alphabet.NoRelay rules := fun first hfirst second hsecond =>
      hrelay first (List.mem_cons_of_mem _ hfirst) second (List.mem_cons_of_mem _ hsecond)
    exact List.forall_mem_cons.mpr
      ⟨List.forall_mem_cons.mpr ⟨hleft, hright⟩, ih hdeclared hrest hlater⟩

end Matrix

namespace MatrixRules

/-- What is left of a store without the matrices that mention undeclared symbols. -/
def declared (alphabet : Alphabet) (store : MatrixRules) : MatrixRules :=
  ⟨store.matrices.filter (Matrix.IsDeclared alphabet), fun matrix hmatrix =>
    store.inhabited matrix (List.mem_of_mem_filter hmatrix)⟩

theorem mem_declared_iff {alphabet : Alphabet} {store : MatrixRules} {matrix : Matrix} :
    matrix ∈ (store.declared alphabet).matrices ↔
      matrix ∈ store.matrices ∧ matrix.IsDeclared alphabet := by
  simp [declared]

end MatrixRules

namespace Grammar

/-- The same grammar with those of the matrices that mention no undeclared symbol. -/
def withDeclared (grammar : Grammar) (store : MatrixRules) : Grammar :=
  { grammar with rules := .matrix (store.declared grammar.alphabet) }

variable {grammar : Grammar} {store : MatrixRules} {word : Word} {later : List Word} {c : Char}

theorem step_matrix_iff (hrules : grammar.rules = .matrix store) {result : Word} :
    grammar.Step word result ↔ ∃ matrix ∈ store.matrices, matrix.apply word = some result := by
  rw [← MatrixRules.mem_successors_iff, Step, successors, hrules]
  rfl

theorem step_declared_iff {result : Word} :
    (grammar.withDeclared store).Step word result ↔
      ∃ matrix ∈ store.matrices, matrix.IsDeclared grammar.alphabet ∧
        matrix.apply word = some result := by
  rw [step_matrix_iff rfl]
  simp only [MatrixRules.mem_declared_iff, and_assoc]

theorem Valid.declared (hg : grammar.Valid) (hrules : grammar.rules = .matrix store) :
    (grammar.withDeclared store).Valid := by
  obtain ⟨hdisjoint, hstart, hvalid⟩ := valid_iff.mp hg
  rw [hrules] at hvalid
  refine valid_iff.mpr ⟨hdisjoint, hstart, MatrixRules.result_validate_eq_ok_iff.mpr ?_⟩
  intro matrix hmatrix
  obtain ⟨hmatrix, -⟩ := MatrixRules.mem_declared_iff.mp hmatrix
  exact MatrixRules.result_validate_eq_ok_iff.mp hvalid matrix hmatrix

/-- On the way from a word of declared symbols to another one there are only such words. -/
theorem declaresAll_of_chain (hrules : grammar.rules = .matrix store)
    (hrelay : grammar.alphabet.NoRelay grammar.rules.allRules)
    (h : (word :: later).IsChain grammar.Step) (hword : grammar.alphabet.DeclaresAll word)
    (hlast : grammar.alphabet.DeclaresAll (later.getLastD word)) :
    ∀ w ∈ word :: later, grammar.alphabet.DeclaresAll w := by
  induction later generalizing word with
  | nil => exact List.forall_mem_singleton.mpr hword
  | cons next later ih =>
    obtain ⟨hstep, hrest⟩ := List.isChain_cons_cons.mp h
    obtain ⟨matrix, hmatrix, happly⟩ := (step_matrix_iff hrules).mp hstep
    rw [List.getLastD_cons] at hlast
    refine List.forall_mem_cons.mpr ⟨hword, ih hrest ?_ hlast⟩
    intro c hc
    by_contra hundeclared
    rcases Matrix.mem_or_mem_right_of_apply happly hc with hmem | ⟨rule, hrule, hright⟩
    · exact hundeclared (hword c hmem)
    · have hkept : ∀ other ∈ grammar.rules.allRules, other.left ≠ c := by
        rintro other hother rfl
        refine hundeclared (hrelay rule ?_ other hother hright)
        rw [hrules]
        exact RuleStore.mem_allRules_matrix hmatrix hrule
      exact hundeclared (hlast c (mem_of_isChain hrest hkept hc _ List.getLastD_mem_cons))

open Randomness Search

theorem declaresAll_of_result {target : Target} (h : Result ⟨grammar, target⟩ word) :
    grammar.alphabet.DeclaresAll word := by
  intro c hc
  simp [Alphabet.declares, Alphabet.isTerminal_iff, h.terminal c hc]

/-- Matrices that mention undeclared symbols take part in no course from a word without them. -/
theorem course_declared_iff (hrules : grammar.rules = .matrix store)
    (hrelay : grammar.alphabet.NoRelay grammar.rules.allRules)
    (hword : grammar.alphabet.DeclaresAll word) {target : Target} {bound steps : Nat} :
    Course ⟨grammar.withDeclared store, target⟩ bound steps word later ↔
      Course ⟨grammar, target⟩ bound steps word later := by
  constructor
  · rintro ⟨hfollows, hshort, hfew, hends⟩
    refine ⟨hfollows.imp fun _ _ hstep => ?_, hshort, hfew, ⟨hends.terminal, hends.fits⟩⟩
    obtain ⟨matrix, hmatrix, -, happly⟩ := step_declared_iff.mp hstep
    exact (step_matrix_iff hrules).mpr ⟨matrix, hmatrix, happly⟩
  · rintro ⟨hfollows, hshort, hfew, hends⟩
    refine ⟨?_, hshort, hfew, ⟨hends.terminal, hends.fits⟩⟩
    have hall := declaresAll_of_chain hrules hrelay hfollows hword (declaresAll_of_result hends)
    refine hfollows.imp_of_mem_imp fun first second hfirst hsecond hstep => ?_
    obtain ⟨matrix, hmatrix, happly⟩ := (step_matrix_iff hrules).mp hstep
    have hwithin : grammar.alphabet.NoRelay matrix.rules := fun rule hrule other hother =>
      have hmem : ∀ r ∈ matrix.rules, r ∈ grammar.rules.allRules := fun r hr =>
        hrules ▸ RuleStore.mem_allRules_matrix hmatrix hr
      hrelay rule (hmem rule hrule) other (hmem other hother)
    have hdeclared := Matrix.isDeclared_of_apply hwithin happly (hall _ hfirst) (hall _ hsecond)
    exact step_declared_iff.mpr ⟨matrix, hmatrix, hdeclared, happly⟩

variable {σ : Type} [Source σ]

theorem Valid.declaresAll_startWord (hg : grammar.Valid) :
    grammar.alphabet.DeclaresAll grammar.startWord := by
  obtain ⟨-, hstart, -⟩ := valid_iff.mp hg
  simpa [Alphabet.DeclaresAll, startWord, Alphabet.declares] using
    Or.inl (Alphabet.isNonterminal_iff.mpr hstart)

/-- Unless one rule brings in an undeclared symbol that another one takes away, derivations hold no
such symbol, and leaving out the matrices that mention one changes nothing in what is found. -/
theorem undeclared_symbols_never_contribute (hg : grammar.Valid)
    (hrules : grammar.rules = .matrix store)
    (hrelay : grammar.alphabet.NoRelay grammar.rules.allRules) (target : Target) (source : σ) :
    (grammar.CanDraw source → (grammar.derive target source).isSome) ∧
      ((grammar.withDeclared store).CanDraw source →
        ((grammar.withDeclared store).derive target source).isSome) ∧
      ∀ outcome, grammar.derive target source = some outcome →
        (∀ derivation, outcome.derivation = some derivation →
          ∀ word ∈ derivation.words, grammar.alphabet.DeclaresAll word) ∧
        ∀ other, (grammar.withDeclared store).derive target source =
            some other → (outcome.derivation.isSome ↔ other.derivation.isSome) := by
  refine ⟨isSome_deriveFrom _ _ target, isSome_deriveFrom _ _ target,
    fun outcome houtcome => ⟨?_, ?_⟩⟩
  · intro derivation hderivation
    obtain ⟨later, hwords, hcourse⟩ := exists_directCourse houtcome hderivation
    rw [hwords]
    exact declaresAll_of_chain hrules hrelay hcourse.follows hg.declaresAll_startWord
      (declaresAll_of_result hcourse.ends)
  · intro other hother
    rw [isSome_derivation_iff hg houtcome, isSome_derivation_iff (hg.declared hrules) hother]
    exact exists_congr fun _ => (course_declared_iff hrules hrelay hg.declaresAll_startWord).symm

/-- One of these matrices leads nowhere, one can never be applied, and the last one is all that is
needed. -/
def idleMatrices : MatrixRules :=
  ⟨[⟨[⟨'S', ['z']⟩]⟩, ⟨[⟨'Y', ['a']⟩, ⟨'S', ['a']⟩]⟩, ⟨[⟨'S', ['a', 'b']⟩]⟩], by simp⟩

/-- An undeclared symbol comes in by the first matrix and goes by the second one. -/
def relayMatrices : MatrixRules := ⟨[⟨[⟨'S', ['a', 'X']⟩]⟩, ⟨[⟨'X', ['b']⟩]⟩], by simp⟩

def lenient (store : MatrixRules) : Grammar where
  alphabet := ⟨.ofList ['S'], .ofList ['a', 'b']⟩
  start := 'S'
  rules := .matrix store
  config := {}

theorem idle_symbols_never_contribute :
    (lenient idleMatrices).Valid ∧
      (lenient idleMatrices).alphabet.NoRelay (lenient idleMatrices).rules.allRules ∧
      ∃ outcome, (lenient idleMatrices).derive (.exactly 2) (⟨[]⟩ : Draws) = some outcome ∧
        ∀ derivation, outcome.derivation = some derivation →
          ∀ word ∈ derivation.words, (lenient idleMatrices).alphabet.DeclaresAll word := by
  have hg : (lenient idleMatrices).Valid := by decide
  have hrelay : (lenient idleMatrices).alphabet.NoRelay (lenient idleMatrices).rules.allRules := by
    decide
  obtain ⟨hsome, -, hnever⟩ :=
    undeclared_symbols_never_contribute hg rfl hrelay (.exactly 2) (⟨[]⟩ : Draws)
  obtain ⟨outcome, houtcome⟩ := Option.isSome_iff_exists.mp (hsome (canDraw_draws _ _))
  exact ⟨hg, hrelay, outcome, houtcome, (hnever outcome houtcome).1⟩

/-- With a relay a derivation does run through an undeclared symbol, and there is none without the two
matrices that mention it. -/
theorem relayed_symbol_contributes :
    (lenient relayMatrices).Valid ∧ (lenient relayMatrices).config.strictMatrices = false ∧
      (lenient relayMatrices).alphabet.declares 'X' = false ∧
      ∃ outcome other, (lenient relayMatrices).derive (.exactly 2) (⟨[]⟩ : Draws) = some outcome ∧
        outcome.derivation = some ⟨[['S'], ['a', 'X'], ['a', 'b']]⟩ ∧
        ((lenient relayMatrices).withDeclared relayMatrices).derive (.exactly 2) (⟨[]⟩ : Draws) =
          some other ∧
        other.derivation = none := by
  have hg : (lenient relayMatrices).Valid := by decide
  have hguided : Guided (lenient relayMatrices) (⟨[]⟩ : Draws) ['S'] [['a', 'X'], ['a', 'b']] ⟨[]⟩ :=
    .onward rfl (.onward rfl .arrived)
  have hcourse : DirectCourse ⟨lenient relayMatrices, .exactly 2⟩ ['S'] [['a', 'X'], ['a', 'b']] :=
    ⟨⟨by decide, by decide, by decide, by decide⟩, by decide⟩
  obtain ⟨outcome, houtcome, hderivation, -⟩ := deriveFrom_of_guided hguided hcourse
  obtain ⟨other, hother⟩ := Option.isSome_iff_exists.mp <|
    ((lenient relayMatrices).withDeclared relayMatrices).isSome_deriveFrom ['S'] (.exactly 2)
      (canDraw_draws _ (⟨[]⟩ : Draws))
  refine ⟨hg, rfl, by decide, outcome, other, houtcome, hderivation, hother, ?_⟩
  have hstuck : ∀ next, ¬((lenient relayMatrices).withDeclared relayMatrices).Step ['S'] next :=
    fun next hstep => by
      obtain ⟨matrix, hmatrix, hdeclared, -⟩ := step_declared_iff.mp hstep
      revert matrix
      decide
  have hnone : ¬other.derivation.isSome := by
    rw [isSome_derivation_iff (hg.declared rfl) hother, solvable_iff]
    rintro (hresult | ⟨next, fewer, hstep, -⟩)
    · exact absurd hresult (by decide)
    · exact hstuck next hstep
  exact Option.not_isSome_iff_eq_none.mp hnone

end Grammar
end BoundedDerivation
