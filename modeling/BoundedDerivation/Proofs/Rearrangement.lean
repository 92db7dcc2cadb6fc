import BoundedDerivation.Proofs.Search.Outcome

/-! Words up to the order of their symbols. Which occurrence of a symbol is replaced matters for
where the replacement goes, not for whether there is one nor for what the new word is made of. So a
word can do in a number of steps what any rearrangement of it can do, and its results are rearranged
alike. -/
namespace BoundedDerivation

namespace Word

variable {word other result right : Word} {symbol : Char}

/-- Up to order, a replacement comes in and one occurrence of the symbol goes out. -/
theorem perm_of_replaceFirst (h : word.replaceFirst symbol right = some result) :
    (symbol :: result).Perm (right ++ word) := by
  obtain ⟨before, after, -, rfl, rfl⟩ := replaceFirst_eq_some_iff.mp h
  rw [List.append_assoc]
  calc (symbol :: (before ++ (right ++ after))).Perm (symbol :: (right ++ (before ++ after))) :=
        (List.perm_append_comm_assoc before right after).cons symbol
    List.Perm _ (right ++ symbol :: (before ++ after)) := List.perm_middle.symm
    List.Perm _ (right ++ (before ++ symbol :: after)) := List.perm_middle.symm.append_left right

/-- A rearranged word has the same symbols to replace, and the results are rearrangements again. -/
theorem exists_replaceFirst_of_perm (hperm : word.Perm other)
    (h : word.replaceFirst symbol right = some result) :
    ∃ result', other.replaceFirst symbol right = some result' ∧ result.Perm result' := by
  have hmem : symbol ∈ other := hperm.mem_iff.mp (mem_of_replaceFirst h)
  cases hother : other.replaceFirst symbol right with
  | none => exact absurd hmem (replaceFirst_eq_none_iff.mp hother)
  | some result' =>
    refine ⟨result', rfl, List.Perm.cons_inv (a := symbol) ?_⟩
    calc (symbol :: result).Perm (right ++ word) := perm_of_replaceFirst h
      List.Perm _ (right ++ other) := hperm.append_left right
      List.Perm _ (symbol :: result') := (perm_of_replaceFirst hother).symm

end Word

/-- By induction on the rules of the matrix: each meets a rearrangement of the word that it would
meet. -/
theorem Matrix.exists_apply_of_perm {matrix : Matrix} {word other result : Word}
    (hperm : word.Perm other) (h : matrix.apply word = some result) :
    ∃ result', matrix.apply other = some result' ∧ result.Perm result' := by
  obtain ⟨rules⟩ := matrix
  induction rules generalizing word other with
  | nil =>
    obtain rfl := Option.some.inj h
    exact ⟨other, rfl, hperm⟩
  | cons rule rules ih =>
    obtain ⟨next, hnext, hresult⟩ := apply_cons_eq_some_iff.mp h
    obtain ⟨next', hnext', hnextPerm⟩ := Word.exists_replaceFirst_of_perm hperm hnext
    obtain ⟨result', hresult', hresultPerm⟩ := ih hnextPerm hresult
    exact ⟨result', apply_cons_eq_some_iff.mpr ⟨next', hnext', hresult'⟩, hresultPerm⟩

/-- Rearranged words take corresponding steps, with rules and with whole matrices. -/
theorem Grammar.Step.exists_of_perm {grammar : Grammar} {word other next : Word}
    (h : grammar.Step word next) (hperm : word.Perm other) :
    ∃ next', grammar.Step other next' ∧ next.Perm next' := by
  unfold Grammar.Step successors at h ⊢
  cases hrules : grammar.rules with
  | contextFree rules =>
    rw [hrules] at h
    obtain ⟨symbol, hsymbol, right, hright, hnext⟩ := ContextFreeRules.mem_successors_iff.mp h
    obtain ⟨next', hnext', hnextPerm⟩ := Word.exists_replaceFirst_of_perm hperm hnext
    have hstep := ContextFreeRules.mem_successors_iff.mpr ⟨symbol, hsymbol, right, hright, hnext'⟩
    exact ⟨next', hstep, hnextPerm⟩
  | matrix store =>
    rw [hrules] at h
    obtain ⟨matrix, hmatrix, hnext⟩ := MatrixRules.mem_successors_iff.mp h
    obtain ⟨next', hnext', hnextPerm⟩ := Matrix.exists_apply_of_perm hperm hnext
    exact ⟨next', MatrixRules.mem_successors_iff.mpr ⟨matrix, hmatrix, hnext'⟩, hnextPerm⟩

namespace Search

variable {problem : Problem} {bound steps : Nat} {word other : Word} {later : List Word}

/-- Being a result is a matter of the length and of the symbols. -/
theorem Result.of_perm (h : Result problem word) (hperm : word.Perm other) : Result problem other :=
  ⟨fun symbol hsymbol => h.terminal symbol (hperm.mem_iff.mpr hsymbol), hperm.length_eq ▸ h.fits⟩

/-- A course from a word has its counterpart from every rearrangement, word by word. -/
theorem Course.exists_of_perm (h : Course problem bound steps word later)
    (hperm : word.Perm other) :
    ∃ later', Course problem bound steps other later' ∧ List.Forall₂ List.Perm later later' := by
  induction later generalizing word other steps with
  | nil =>
    have hresult := isResult_iff.mpr (h.ends.of_perm hperm)
    exact ⟨[], course_nil_iff.mpr hresult, .nil⟩
  | cons next later ih =>
    obtain ⟨hstep, hshort, fewer, rfl, hlater⟩ := course_cons_iff.mp h
    obtain ⟨next', hstep', hnextPerm⟩ := hstep.exists_of_perm hperm
    obtain ⟨later', hlater', hlaterPerm⟩ := ih hlater hnextPerm
    rw [hnextPerm.length_eq] at hshort
    exact ⟨next' :: later', course_cons_iff.mpr ⟨hstep', hshort, fewer, rfl, hlater'⟩,
      .cons hnextPerm hlaterPerm⟩

theorem solvable_iff_of_perm (hperm : word.Perm other) :
    Solvable problem bound steps word ↔ Solvable problem bound steps other := by
  constructor
  · rintro ⟨later, hcourse⟩
    obtain ⟨later', hcourse', -⟩ := hcourse.exists_of_perm hperm
    exact ⟨later', hcourse'⟩
  · rintro ⟨later, hcourse⟩
    obtain ⟨later', hcourse', -⟩ := hcourse.exists_of_perm hperm.symm
    exact ⟨later', hcourse'⟩

end Search

namespace Grammar
open Randomness Search

/-- Rearranging the start word changes nothing in whether a derivation is found, from whatever
sources the two searches draw. -/
theorem rearranged_starts_equally_derivable {grammar : Grammar} {word other : Word}
    (hperm : word.Perm other) (target : Target) {σ τ : Type} [Source σ] [Source τ] (source : σ)
    (source' : τ) :
    (grammar.CanDraw source → (grammar.deriveFrom word target source).isSome) ∧
      (grammar.CanDraw source' → (grammar.deriveFrom other target source').isSome) ∧
      ∀ outcome outcome', grammar.deriveFrom word target source = some outcome →
        grammar.deriveFrom other target source' = some outcome' →
          (outcome.derivation.isSome ↔ outcome'.derivation.isSome) := by
  refine ⟨grammar.isSome_deriveFrom word target, grammar.isSome_deriveFrom other target, ?_⟩
  intro outcome outcome' houtcome houtcome'
  rw [isSome_derivation_iff_solvable houtcome, isSome_derivation_iff_solvable houtcome']
  exact solvable_iff_of_perm hperm

/-- In one word the first matrix takes away the `B` that it has brought in itself, in the other one
the `B` that was there before. -/
def crossing : Grammar where
  alphabet := ⟨.ofList ['A', 'B'], .ofList ['a', 'b', 'c']⟩
  start := 'A'
  rules := .matrix
    ⟨[⟨[⟨'A', ['a', 'B']⟩, ⟨'B', ['b']⟩]⟩, ⟨[⟨'B', ['c']⟩]⟩], by simp⟩
  config := { strictMatrices := true }

theorem crossing_equally_derivable :
    List.Perm ['A', 'B'] ['B', 'A'] ∧ ∃ outcome outcome',
      crossing.deriveFrom ['A', 'B'] (.exactly 3) (⟨[]⟩ : Draws) = some outcome ∧
        crossing.deriveFrom ['B', 'A'] (.exactly 3) (⟨[4000000000]⟩ : Draws) = some outcome' ∧
        outcome.derivation.isSome ∧ outcome'.derivation.isSome := by
  have hperm : List.Perm ['A', 'B'] ['B', 'A'] := by decide
  have hcourse :
      Course ⟨crossing, .exactly 3⟩ 3 101 ['A', 'B'] [['a', 'b', 'B'], ['a', 'b', 'c']] :=
    ⟨by decide, by decide, by decide, by decide⟩
  obtain ⟨hsome, hsome', hequally⟩ := @rearranged_starts_equally_derivable crossing _ _ hperm
    (.exactly 3) Draws Draws _ _ ⟨[]⟩ ⟨[4000000000]⟩
  obtain ⟨outcome, houtcome⟩ := Option.isSome_iff_exists.mp (hsome (canDraw_draws _ _))
  obtain ⟨outcome', houtcome'⟩ := Option.isSome_iff_exists.mp (hsome' (canDraw_draws _ _))
  have hfound := (isSome_derivation_iff_solvable houtcome).mpr ⟨_, hcourse⟩
  exact ⟨hperm, outcome, outcome', houtcome, houtcome', hfound,
    (hequally outcome outcome' houtcome houtcome').mp hfound⟩

end Grammar
end BoundedDerivation
