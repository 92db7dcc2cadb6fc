import BoundedDerivation.Proofs.Rewriting
import Mathlib.Data.List.Chain

/-! What the check of a derivation decides: whether its words start at the start symbol, follow from
one another and end in a terminal word. A list of words that is no derivation is refused for the first
respect in which it fails to be one. -/
namespace BoundedDerivation.Grammar

variable {grammar : Grammar}

theorem checkSteps_eq_ok_iff (step : Nat) {words : List Word} :
    grammar.checkSteps step words = .ok () ↔ words.IsChain grammar.Step := by
  fun_induction checkSteps grammar step words with
  | case1 step before after rest hmem ih =>
    rw [ih, List.isChain_cons_cons]
    exact (and_iff_right hmem).symm
  | case2 step before after rest hmem =>
    rw [List.isChain_cons_cons]
    simp only [reduceCtorEq, false_iff, not_and]
    intro hstep
    exact absurd hstep hmem
  | case3 words step hshort =>
    simp only [true_iff]
    rcases words with _ | ⟨before, _ | ⟨after, rest⟩⟩
    · exact .nil
    · exact .singleton before
    · exact absurd rfl (hshort before after rest)

theorem exists_eq_cons_of_eq_append {first before : Word} {rest earlier later : List Word}
    (h : first :: rest = earlier ++ before :: later) :
    ∃ between, earlier ++ [before] = first :: between := by
  cases earlier with
  | nil =>
    obtain ⟨rfl, -⟩ := List.cons.inj h
    exact ⟨[], rfl⟩
  | cons head earlier =>
    obtain ⟨rfl, -⟩ := List.cons.inj h
    exact ⟨earlier ++ [before], rfl⟩

/-- A wrong step comes after a word that no wrong step leads to, so a list has at most one first step
that is wrong. -/
theorem checkSteps_eq_error_iff {step : Nat} {words : List Word} {fault : DerivationFault} :
    grammar.checkSteps step words = .error fault ↔
      ∃ earlier before after later, words = earlier ++ before :: after :: later ∧
        (earlier ++ [before]).IsChain grammar.Step ∧ ¬grammar.Step before after ∧
        fault = .wrongStep (step + earlier.length) before after := by
  fun_induction checkSteps grammar step words with
  | case1 step first second rest hmem ih =>
    rw [ih]
    constructor
    · rintro ⟨earlier, before, after, later, hwords, hchain, hwrong, rfl⟩
      obtain ⟨between, hbetween⟩ := exists_eq_cons_of_eq_append hwords
      refine ⟨first :: earlier, before, after, later, by rw [hwords]; rfl, ?_, hwrong, ?_⟩
      · rw [hbetween] at hchain
        rw [List.cons_append, hbetween]
        exact .cons_cons hmem hchain
      · rw [List.length_cons, Nat.add_right_comm, Nat.add_assoc]
    · rintro ⟨_ | ⟨_, earlier⟩, before, after, later, hwords, hchain, hwrong, rfl⟩
      · cases hwords
        exact absurd hmem hwrong
      · obtain ⟨rfl, hrest⟩ := List.cons.inj hwords
        refine ⟨earlier, before, after, later, hrest, hchain.tail, hwrong, ?_⟩
        rw [List.length_cons, Nat.add_right_comm, Nat.add_assoc]
  | case2 step first second rest hmem =>
    constructor
    · rintro ⟨⟩
      exact ⟨[], first, second, rest, rfl, .singleton first, hmem, rfl⟩
    · rintro ⟨_ | ⟨_, earlier⟩, before, after, later, hwords, hchain, -, rfl⟩
      · cases hwords
        rfl
      · obtain ⟨rfl, hrest⟩ := List.cons.inj hwords
        obtain ⟨between, hbetween⟩ := exists_eq_cons_of_eq_append hrest
        rw [List.cons_append, hbetween] at hchain
        exact absurd (List.isChain_cons_cons.mp hchain).1 hmem
  | case3 words step hshort =>
    simp only [reduceCtorEq, false_iff]
    rintro ⟨_ | ⟨_, _ | ⟨_, earlier⟩⟩, before, after, later, rfl, -⟩
    · exact hshort _ _ _ rfl
    · exact hshort _ _ _ rfl
    · exact hshort _ _ _ rfl

/-- The words lead from the start symbol alone to a word of terminals, each by one step to the next. -/
structure IsDerivation (grammar : Grammar) (words : List Word) : Prop where
  starts : words.head? = some [grammar.start]
  follows : words.IsChain grammar.Licenses
  ends : ∃ result, words.getLast? = some result ∧
    ∀ symbol ∈ result, symbol ∈ grammar.alphabet.terminals

/-- The first respect in which words are no derivation. Wrong steps are counted from one, and the last
word only matters if there are none. -/
inductive FirstFault (grammar : Grammar) (words : List Word) : DerivationFault → Prop
  | noWords (empty : words = []) : FirstFault grammar words .noWords
  | wrongStart {first : Word} (starts : words.head? = some first)
      (other : first ≠ [grammar.start]) :
      FirstFault grammar words (.wrongStart first grammar.start)
  | wrongStep {earlier later : List Word} {before after : Word}
      (starts : words.head? = some [grammar.start])
      (split : words = earlier ++ before :: after :: later)
      (follows : (earlier ++ [before]).IsChain grammar.Licenses)
      (wrong : ¬grammar.Licenses before after) :
      FirstFault grammar words (.wrongStep (earlier.length + 1) before after)
  | notTerminal {result : Word} (starts : words.head? = some [grammar.start])
      (follows : words.IsChain grammar.Licenses) (last : words.getLast? = some result)
      (foreign : ∃ symbol ∈ result, symbol ∉ grammar.alphabet.terminals) :
      FirstFault grammar words (.notTerminal result)

theorem step_eq_licenses : grammar.Step = grammar.Licenses := by
  funext word next
  exact propext step_iff_licenses

variable {first : Word} {later : List Word}

theorem not_isTerminalWord_iff {word : Word} :
    ¬grammar.alphabet.isTerminalWord word ↔
      ∃ symbol ∈ word, symbol ∉ grammar.alphabet.terminals := by
  rw [Alphabet.isTerminalWord_iff]
  simp

theorem checkWords_of_other (h : first ≠ grammar.startWord) :
    grammar.checkWords ⟨first :: later⟩ = .error (.wrongStart first grammar.start) := by
  simp [checkWords, h, throw, throwThe, MonadExceptOf.throw, bind, Except.bind]

theorem checkWords_of_wrongStep {fault : DerivationFault}
    (h : grammar.checkSteps 1 (grammar.startWord :: later) = .error fault) :
    grammar.checkWords ⟨grammar.startWord :: later⟩ = .error fault := by
  simp [checkWords, h, bind, Except.bind]

theorem checkWords_of_chain {result : Word}
    (h : (grammar.startWord :: later).IsChain grammar.Step)
    (hlast : (grammar.startWord :: later).getLast? = some result) :
    grammar.checkWords ⟨grammar.startWord :: later⟩ =
      if grammar.alphabet.isTerminalWord result then .ok () else .error (.notTerminal result) := by
  have hsteps := (checkSteps_eq_ok_iff 1).mpr h
  have hresult : Derivation.result ⟨grammar.startWord :: later⟩ = result := by
    rw [Derivation.result, List.getLastD_eq_getLast?, hlast, Option.getD_some]
  cases hterminal : grammar.alphabet.isTerminalWord result <;>
    simp [checkWords, hsteps, hresult, hterminal, bind, Except.bind, throw, throwThe,
      MonadExceptOf.throw, pure, Except.pure]

/-- The tests of the check in their order, each with what it has found out when it fails. -/
theorem checkWords_cases (grammar : Grammar) (words : List Word) :
    (grammar.checkWords ⟨words⟩ = .ok () ∧ grammar.IsDerivation words) ∨
      ∃ fault, grammar.checkWords ⟨words⟩ = .error fault ∧ grammar.FirstFault words fault := by
  rcases words with _ | ⟨first, later⟩
  · exact .inr ⟨.noWords, rfl, .noWords rfl⟩
  by_cases hfirst : first = grammar.startWord
  · subst hfirst
    cases hsteps : grammar.checkSteps 1 (grammar.startWord :: later) with
    | error fault =>
      obtain ⟨earlier, before, after, rest, hsplit, hfollows, hwrong, rfl⟩ :=
        checkSteps_eq_error_iff.mp hsteps
      rw [step_eq_licenses] at hfollows hwrong
      have hfault := FirstFault.wrongStep rfl hsplit hfollows hwrong
      exact .inr ⟨_, checkWords_of_wrongStep hsteps, Nat.add_comm 1 _ ▸ hfault⟩
    | ok =>
      have hfollows := (checkSteps_eq_ok_iff 1).mp hsteps
      have hwords := checkWords_of_chain hfollows List.getLast?_cons
      rw [step_eq_licenses] at hfollows
      split at hwords
      · rename_i hterminal
        have hsymbols := Alphabet.isTerminalWord_iff.mp hterminal
        exact .inl ⟨hwords, rfl, hfollows, _, List.getLast?_cons, hsymbols⟩
      · rename_i hforeign
        have hsymbols := not_isTerminalWord_iff.mp hforeign
        exact .inr ⟨_, hwords, .notTerminal rfl hfollows List.getLast?_cons hsymbols⟩
  · exact .inr ⟨_, checkWords_of_other hfirst, .wrongStart rfl hfirst⟩

theorem IsDerivation.checkWords_eq {words : List Word} (h : grammar.IsDerivation words) :
    grammar.checkWords ⟨words⟩ = .ok () := by
  obtain ⟨hstarts, hfollows, result, hlast, hsymbols⟩ := h
  obtain ⟨later, rfl⟩ := List.head?_eq_some_iff.mp hstarts
  rw [← step_eq_licenses] at hfollows
  have hterminal := Alphabet.isTerminalWord_iff.mpr hsymbols
  exact (checkWords_of_chain hfollows hlast).trans (if_pos hterminal)

theorem FirstFault.checkWords_eq {words : List Word} {fault : DerivationFault}
    (h : grammar.FirstFault words fault) : grammar.checkWords ⟨words⟩ = .error fault := by
  cases h with
  | noWords hempty =>
    subst hempty
    rfl
  | wrongStart hstarts hother =>
    obtain ⟨later, rfl⟩ := List.head?_eq_some_iff.mp hstarts
    exact checkWords_of_other hother
  | @wrongStep earlier rest before after hstarts hsplit hfollows hwrong =>
    obtain ⟨later, rfl⟩ := List.head?_eq_some_iff.mp hstarts
    rw [← step_eq_licenses] at hfollows hwrong
    apply checkWords_of_wrongStep
    rw [checkSteps_eq_error_iff, Nat.add_comm]
    exact ⟨earlier, before, after, rest, hsplit, hfollows, hwrong, rfl⟩
  | notTerminal hstarts hfollows hlast hforeign =>
    obtain ⟨later, rfl⟩ := List.head?_eq_some_iff.mp hstarts
    rw [← step_eq_licenses] at hfollows
    have hterminal := not_isTerminalWord_iff.mpr hforeign
    exact (checkWords_of_chain hfollows hlast).trans (if_neg hterminal)

theorem checkDerivation_eq_ok_iff_isDerivation {words : List Word} :
    grammar.checkDerivation ⟨words⟩ = .ok () ↔ grammar.IsDerivation words := by
  unfold checkDerivation
  rcases grammar.checkWords_cases words with ⟨hwords, hderivation⟩ | ⟨found, hwords, -⟩
  · rw [hwords]
    exact iff_of_true rfl hderivation
  · rw [hwords]
    refine iff_of_false nofun fun hderivation => ?_
    rw [hderivation.checkWords_eq] at hwords
    cases hwords

theorem checkDerivation_eq_error_iff {words : List Word} {error : GrammarError} :
    grammar.checkDerivation ⟨words⟩ = .error error ↔
      ∃ fault, grammar.FirstFault words fault ∧ error = .invalidDerivation fault := by
  unfold checkDerivation
  constructor
  · intro h
    rcases grammar.checkWords_cases words with ⟨hwords, -⟩ | ⟨found, hwords, hfound⟩
    · rw [hwords] at h
      cases h
    · rw [hwords] at h
      cases h
      exact ⟨found, hfound, rfl⟩
  · rintro ⟨fault, hfault, rfl⟩
    rw [hfault.checkWords_eq]
    rfl

/-- The check passes exactly the chains from the start symbol to a terminal word. -/
theorem checkDerivation_eq_ok_iff {derivation : Derivation} :
    grammar.checkDerivation derivation = .ok () ↔
      ∃ later, derivation.words = grammar.startWord :: later ∧
        derivation.words.IsChain grammar.Step ∧
        grammar.alphabet.isTerminalWord derivation.result := by
  obtain ⟨words⟩ := derivation
  rw [checkDerivation_eq_ok_iff_isDerivation, step_eq_licenses, Alphabet.isTerminalWord_iff,
    Derivation.result, List.getLastD_eq_getLast?]
  constructor
  · rintro ⟨hstarts, hfollows, result, hlast, hsymbols⟩
    obtain ⟨later, hwords⟩ := List.head?_eq_some_iff.mp hstarts
    refine ⟨later, hwords, hfollows, ?_⟩
    rw [hlast, Option.getD_some]
    exact hsymbols
  · rintro ⟨later, rfl, hfollows, hterminal⟩
    rw [List.getLast?_cons, Option.getD_some] at hterminal
    exact ⟨rfl, hfollows, _, List.getLast?_cons, hterminal⟩

/-- The check accepts the derivations of the grammar and nothing else. Any other list of words is
refused for its first fault. -/
theorem check_decides_derivations (grammar : Grammar) (words : List Word) :
    (grammar.checkDerivation ⟨words⟩ = .ok () ↔ grammar.IsDerivation words) ∧
      ∀ error, grammar.checkDerivation ⟨words⟩ = .error error ↔
        ∃ fault, grammar.FirstFault words fault ∧ error = .invalidDerivation fault :=
  ⟨checkDerivation_eq_ok_iff_isDerivation, fun _ => checkDerivation_eq_error_iff⟩

end BoundedDerivation.Grammar
