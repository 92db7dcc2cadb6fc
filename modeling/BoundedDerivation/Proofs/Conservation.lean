import BoundedDerivation.Proofs.FreeDerivation
import BoundedDerivation.Proofs.Reconfiguration
import BoundedDerivation.Proofs.Rewriting
import BoundedDerivation.Proofs.Undeclared

/-! Conservation of symbols. Validation in full, which context-free grammars always undergo and matrix
grammars in strict mode, has nonterminals on the left of every rule and declared symbols on the right.
So everything but nonterminals only becomes more frequent on the way, undeclared symbols never come in,
and from a word that has one at the start no search gets anywhere. -/
namespace BoundedDerivation

namespace Grammar

variable {grammar : Grammar} {word : Word} {words later : List Word} {symbol : Char}

theorem pairwise_count_le (h : words.IsChain grammar.Step)
    (hleft : ∀ rule ∈ grammar.rules.allRules, rule.left ≠ symbol) :
    words.Pairwise fun earlier later => earlier.count symbol ≤ later.count symbol := by
  have : IsTrans Word (fun earlier later => earlier.count symbol ≤ later.count symbol) :=
    ⟨fun _ _ _ hfirst hsecond => Nat.le_trans hfirst hsecond⟩
  exact (h.imp fun _ _ hstep => hstep.count_le hleft).pairwise

theorem declaresAll_of_isChain (h : (word :: later).IsChain grammar.Step)
    (hright : ∀ rule ∈ grammar.rules.allRules, grammar.alphabet.DeclaresAll rule.right)
    (hword : grammar.alphabet.DeclaresAll word) :
    ∀ w ∈ word :: later, grammar.alphabet.DeclaresAll w := by
  apply h.induction
  · intro earlier next hstep hearlier c hc
    rcases hstep.mem_or_mem_right hc with hmem | ⟨rule, hrule, hmem⟩
    · exact hearlier c hmem
    · exact hright rule hrule c hmem
  · exact fun _ => hword

open Randomness Search

variable {σ : Type} [Source σ]

/-- An undeclared symbol that no rule takes away keeps a word from ever becoming a result. -/
theorem derivation_eq_none_of_mem {start : Word} {target : Target} {source : σ} {outcome : Outcome σ}
    (hleft : ∀ rule ∈ grammar.rules.allRules, rule.left ≠ symbol)
    (hforeign : grammar.alphabet.declares symbol = false) (hmem : symbol ∈ start)
    (h : grammar.deriveFrom start target source = some outcome) : outcome.derivation = none := by
  cases hderivation : outcome.derivation with
  | none => rfl
  | some derivation =>
    obtain ⟨later, -, hcourse⟩ := exists_directCourse h hderivation
    have hlast := mem_of_isChain hcourse.follows hleft hmem _ List.getLastD_mem_cons
    have hdeclared := declaresAll_of_result hcourse.ends symbol hlast
    rw [hforeign] at hdeclared
    cases hdeclared

/-- In what passes validation of its symbols, nonterminals are all that is ever taken away. The first
and the last statement rest on the check of left sides, the second one on the disjointness of the
alphabet besides, and the third one on the check of right sides. -/
theorem only_nonterminals_are_consumed (hg : grammar.Valid)
    (hchecked : grammar.kind = .contextFree ∨ grammar.config.strictMatrices) :
    (∀ words : List Word, words.IsChain grammar.Step →
        ∀ symbol ∉ grammar.alphabet.nonterminals,
          words.Pairwise fun earlier later => earlier.count symbol ≤ later.count symbol) ∧
      (∀ word, grammar.alphabet.isTerminalWord word → grammar.successors word = []) ∧
      (∀ word later, (word :: later).IsChain grammar.Step → grammar.alphabet.DeclaresAll word →
        ∀ w ∈ later, grammar.alphabet.DeclaresAll w) ∧
      ∀ start, (∃ symbol ∈ start, grammar.alphabet.declares symbol = false) →
        ∀ (target : Target) {σ : Type} [Source σ] (source : σ),
          (grammar.CanDraw source → (grammar.deriveFrom start target source).isSome) ∧
            ∀ outcome, grammar.deriveFrom start target source = some outcome →
              outcome.derivation = none := by
  have hfits := (valid_iff_wellFormed.mp hg).fits hchecked
  have hleft : ∀ symbol ∉ grammar.alphabet.nonterminals,
      ∀ rule ∈ grammar.rules.allRules, rule.left ≠ symbol := by
    rintro symbol hsymbol rule hrule rfl
    exact hsymbol (hfits rule hrule).left
  refine ⟨?_, ?_, ?_, ?_⟩
  · intro words hchain symbol hsymbol
    exact pairwise_count_le hchain (hleft symbol hsymbol)
  · intro word hterminal
    apply List.eq_nil_iff_forall_not_mem.mpr
    intro next hstep
    obtain ⟨rule, hrule, hmem⟩ := Step.exists_left_mem hstep
    exact hg.not_mem_nonterminals hterminal rule.left hmem (hfits rule hrule).left
  · intro word later hchain hword w hw
    have hright := fun rule hrule => (hfits rule hrule).right
    exact declaresAll_of_isChain hchain hright hword w (List.mem_cons_of_mem _ hw)
  · rintro start ⟨symbol, hmem, hforeign⟩ target σ _ source
    have hsymbol : symbol ∉ grammar.alphabet.nonterminals := by
      intro hnonterminal
      simp [Alphabet.declares, Alphabet.isNonterminal_iff.mpr hnonterminal] at hforeign
    refine ⟨grammar.isSome_deriveFrom start target, fun outcome houtcome => ?_⟩
    exact derivation_eq_none_of_mem (hleft symbol hsymbol) hforeign hmem houtcome

/-- Two nonterminals that grow in step, checked in full. -/
def tandem : Grammar where
  alphabet := ⟨.ofList ['S', 'A', 'B'], .ofList ['a', 'b']⟩
  start := 'S'
  rules := .matrix ⟨[⟨[⟨'S', ['A', 'B']⟩]⟩, ⟨[⟨'A', ['a', 'A']⟩, ⟨'B', ['B', 'b']⟩]⟩,
    ⟨[⟨'A', ['a']⟩, ⟨'B', ['b']⟩]⟩], by simp⟩
  config := { strictMatrices := true }

theorem only_nonterminals_of_tandem :
    tandem.Valid ∧ tandem.config.strictMatrices ∧
      List.Pairwise (fun earlier later => earlier.count 'b' ≤ later.count 'b')
        [['A', 'b', 'B'], ['a', 'A', 'b', 'B', 'b'], ['a', 'a', 'b', 'b', 'b']] ∧
      ∃ outcome, tandem.deriveFrom ['A', '?', 'B'] .any (⟨[]⟩ : Draws) = some outcome ∧
        outcome.derivation = none := by
  have hg : tandem.Valid := by decide
  obtain ⟨hcount, -, -, hnone⟩ := only_nonterminals_are_consumed hg (.inr rfl)
  obtain ⟨hsome, hnone⟩ :=
    hnone ['A', '?', 'B'] ⟨'?', by decide, by decide⟩ .any (⟨[]⟩ : Draws)
  obtain ⟨outcome, houtcome⟩ := Option.isSome_iff_exists.mp (hsome (canDraw_draws _ _))
  refine ⟨hg, rfl, hcount _ ?_ 'b' (by decide), outcome, houtcome, hnone outcome houtcome⟩
  decide

end Grammar
end BoundedDerivation
