import BoundedDerivation.Proofs.Search.Outcome

/-! Context-free derivations as textbooks have them, with any occurrence of a nonterminal to be
replaced at any time. A search replaces leftmost occurrences only. It misses nothing by that: the
steps of a free derivation can be put in an order in which the first nonterminal of the word is
always the next one to go, and their number stays the same. -/
namespace BoundedDerivation
namespace ContextFreeRules

/-- Any occurrence of a nonterminal gives way to any of its alternatives. -/
inductive FreeStep (rules : ContextFreeRules) (alphabet : Alphabet) : Word → Word → Prop
  | replace {symbol : Char} {right : Word} (before after : Word)
      (nonterminal : symbol ∈ alphabet.nonterminals)
      (alternative : right ∈ rules.alternatives symbol) :
      FreeStep rules alphabet (before ++ symbol :: after) (before ++ right ++ after)

/-- A number of free steps, one after the other. -/
inductive FreeDerivation (rules : ContextFreeRules) (alphabet : Alphabet) :
    Nat → Word → Word → Prop
  | refl (word : Word) : FreeDerivation rules alphabet 0 word word
  | step {steps : Nat} {word next result : Word} (first : FreeStep rules alphabet word next)
      (rest : FreeDerivation rules alphabet steps next result) :
      FreeDerivation rules alphabet (steps + 1) word result

variable {rules : ContextFreeRules} {alphabet : Alphabet} {word next result : Word} {steps : Nat}

theorem FreeStep.of_mem_successors (h : result ∈ rules.successors alphabet word) :
    FreeStep rules alphabet word result := by
  obtain ⟨symbol, hsymbol, right, hright, hresult⟩ := mem_successors_iff.mp h
  obtain ⟨before, after, -, rfl, rfl⟩ := Word.replaceFirst_eq_some_iff.mp hresult
  exact .replace before after hsymbol hright

theorem FreeStep.exists_nonterminal (h : FreeStep rules alphabet word next) :
    ∃ symbol ∈ word, symbol ∈ alphabet.nonterminals := by
  cases h with
  | replace before after hsymbol _ => exact ⟨_, by simp, hsymbol⟩

/-- A word with nonterminals has a first one. -/
theorem exists_first_nonterminal (h : ∃ symbol ∈ word, symbol ∈ alphabet.nonterminals) :
    ∃ before symbol after, word = before ++ symbol :: after ∧ symbol ∈ alphabet.nonterminals ∧
      ∀ c ∈ before, c ∉ alphabet.nonterminals := by
  obtain ⟨symbol, hword, hsymbol⟩ := h
  have hfind : (word.find? alphabet.isNonterminal).isSome :=
    List.find?_isSome.mpr ⟨symbol, hword, Alphabet.isNonterminal_iff.mpr hsymbol⟩
  obtain ⟨first, hfirst⟩ := Option.isSome_iff_exists.mp hfind
  obtain ⟨hfirst, before, after, hsplit, hbefore⟩ := List.find?_eq_some_iff_append.mp hfirst
  refine ⟨before, first, after, hsplit, Alphabet.isNonterminal_iff.mp hfirst, fun c hc => ?_⟩
  simpa [Alphabet.isNonterminal] using hbefore c hc

/-- A free step from a word either replaces its first nonterminal or leaves it where it is. -/
theorem FreeStep.cases_first {before after : Word} {symbol : Char}
    (hbefore : ∀ c ∈ before, c ∉ alphabet.nonterminals)
    (h : FreeStep rules alphabet (before ++ symbol :: after) next) :
    (∃ right ∈ rules.alternatives symbol, next = before ++ right ++ after) ∨
      ∃ rest, FreeStep rules alphabet after rest ∧ next = before ++ symbol :: rest := by
  generalize hword : before ++ symbol :: after = whole at h
  cases h with
  | @replace other right start stop hother hright =>
    rcases List.append_eq_append_iff.mp hword with ⟨mid, rfl, hmid⟩ | ⟨mid, rfl, hmid⟩
    · cases mid with
      | nil =>
        obtain ⟨rfl, rfl⟩ := List.cons.inj hmid
        exact .inl ⟨right, hright, by simp⟩
      | cons first mid =>
        obtain ⟨rfl, rfl⟩ := List.cons.inj hmid
        exact .inr ⟨mid ++ right ++ stop, .replace mid stop hother hright, by simp⟩
    · cases mid with
      | nil =>
        obtain ⟨rfl, rfl⟩ := List.cons.inj hmid
        exact .inl ⟨right, hright, by simp⟩
      | cons first mid =>
        obtain ⟨rfl, rfl⟩ := List.cons.inj hmid
        exact absurd hother (hbefore other (by simp))

theorem FreeStep.append (h : FreeStep rules alphabet word next) (before : Word) :
    FreeStep rules alphabet (before ++ word) (before ++ next) := by
  cases h with
  | replace start stop hsymbol hright =>
    have hstep := FreeStep.replace (before ++ start) stop hsymbol hright
    simpa using hstep

/-- The step that replaces the first nonterminal can be taken first. By induction on the derivation:
whatever step is taken before it replaces something farther right, and can be taken after it. -/
theorem FreeDerivation.pull_first {before after : Word} {symbol : Char}
    (hsymbol : symbol ∈ alphabet.nonterminals) (hbefore : ∀ c ∈ before, c ∉ alphabet.nonterminals)
    (hresult : ∀ c ∈ result, c ∉ alphabet.nonterminals)
    (h : FreeDerivation rules alphabet steps (before ++ symbol :: after) result) :
    ∃ right ∈ rules.alternatives symbol, ∃ fewer, steps = fewer + 1 ∧
      FreeDerivation rules alphabet fewer (before ++ right ++ after) result := by
  generalize hword : before ++ symbol :: after = whole at h
  induction h generalizing after with
  | refl word =>
    subst hword
    exact absurd hsymbol (hresult symbol (by simp))
  | @step steps word next result hfirst hrest ih =>
    subst hword
    rcases hfirst.cases_first hbefore with ⟨right, hright, rfl⟩ | ⟨rest, hstep, rfl⟩
    · exact ⟨right, hright, steps, rfl, hrest⟩
    · obtain ⟨right, hright, fewer, rfl, hlater⟩ := ih hresult rfl
      exact ⟨right, hright, fewer + 1, rfl, .step (hstep.append (before ++ right)) hlater⟩

/-- Every free derivation of a word without nonterminals has as many steps as some chain of steps
at leftmost occurrences. -/
theorem FreeDerivation.exists_chain (hresult : ∀ c ∈ result, c ∉ alphabet.nonterminals)
    (h : FreeDerivation rules alphabet steps word result) :
    ∃ later, (word :: later).IsChain (fun u v => v ∈ rules.successors alphabet u) ∧
      later.length = steps ∧ later.getLastD word = result := by
  induction steps generalizing word with
  | zero =>
    cases h
    exact ⟨[], .singleton _, rfl, rfl⟩
  | succ steps ih =>
    have hnonterminal : ∃ symbol ∈ word, symbol ∈ alphabet.nonterminals := by
      cases h with
      | step hfirst _ => exact hfirst.exists_nonterminal
    obtain ⟨before, symbol, after, rfl, hsymbol, hbefore⟩ := exists_first_nonterminal hnonterminal
    obtain ⟨right, hright, fewer, hfewer, hrest⟩ := h.pull_first hsymbol hbefore hresult
    obtain rfl : steps = fewer := by omega
    obtain ⟨later, hchain, hlength, hlast⟩ := ih hrest
    have habsent : symbol ∉ before := fun hmem => hbefore symbol hmem hsymbol
    have hstep : before ++ right ++ after ∈
        rules.successors alphabet (before ++ symbol :: after) :=
      mem_successors_iff.mpr
        ⟨symbol, hsymbol, right, hright, Word.replaceFirst_append habsent after right⟩
    exact ⟨_ :: later, .cons_cons hstep hchain, by simpa using hlength, by
      rwa [List.getLastD_cons]⟩

theorem FreeDerivation.of_chain {later : List Word}
    (h : (word :: later).IsChain (fun u v => v ∈ rules.successors alphabet u)) :
    FreeDerivation rules alphabet later.length word (later.getLastD word) := by
  induction later generalizing word with
  | nil => exact .refl word
  | cons next later ih =>
    obtain ⟨hstep, hrest⟩ := List.isChain_cons_cons.mp h
    rw [List.getLastD_cons]
    exact .step (.of_mem_successors hstep) (ih hrest)

end ContextFreeRules

namespace Grammar
open Randomness Search ContextFreeRules

variable {grammar : Grammar} {rules : ContextFreeRules}

theorem step_eq_of_contextFree (hrules : grammar.rules = .contextFree rules) :
    grammar.Step = fun u v => v ∈ rules.successors grammar.alphabet u := by
  funext u v
  simp [Step, successors, hrules, RuleStore.successors]

theorem Valid.not_mem_nonterminals (hg : grammar.Valid) {word : Word}
    (h : grammar.alphabet.isTerminalWord word) :
    ∀ c ∈ word, c ∉ grammar.alphabet.nonterminals := by
  obtain ⟨hdisjoint, -, -⟩ := valid_iff.mp hg
  intro c hc hnonterminal
  exact hdisjoint c hnonterminal (Alphabet.isTerminalWord_iff.mp h c hc)

/-- The start symbol alone is no terminal word. -/
theorem Valid.isTerminalWord_startWord (hg : grammar.Valid) :
    ¬grammar.alphabet.isTerminalWord grammar.startWord := by
  intro hterminal
  obtain ⟨-, hstart, -⟩ := valid_iff.mp hg
  exact hg.not_mem_nonterminals hterminal grammar.start (by simp [startWord]) hstart

/-- Some terminal word of the given length can be derived freely from the start symbol, within the
depth bound of the grammar. -/
def FreelyDerivable (grammar : Grammar) (rules : ContextFreeRules) (length : Nat) : Prop :=
  ∃ word, word.length = length ∧ (∀ symbol ∈ word, symbol ∈ grammar.alphabet.terminals) ∧
    ∃ steps ≤ grammar.config.maxDepth + 1,
      FreeDerivation rules grammar.alphabet steps grammar.startWord word

/-- From the start symbol, courses and free derivations lead to results of the same lengths. -/
theorem exists_course_iff_freelyDerivable (hg : grammar.Valid)
    (hrules : grammar.rules = .contextFree rules) {target : Target} :
    (∃ later, Course ⟨grammar, target⟩ grammar.config.maxLength (grammar.config.maxDepth + 1)
      grammar.startWord later) ↔
      ∃ length ≤ grammar.config.maxLength, (∀ n, target = .exactly n → length = n) ∧
        grammar.FreelyDerivable rules length := by
  have hstep := step_eq_of_contextFree hrules
  constructor
  · rintro ⟨later, hcourse⟩
    obtain ⟨hterminal, hfits⟩ := hcourse.ends
    have hderivation : FreeDerivation rules grammar.alphabet later.length grammar.startWord
        (later.getLastD grammar.startWord) := .of_chain (hstep ▸ hcourse.follows)
    cases later with
    | nil => exact absurd (Alphabet.isTerminalWord_iff.mpr hterminal) hg.isTerminalWord_startWord
    | cons next later =>
      rw [List.getLastD_cons] at hfits hterminal hderivation
      have hshort := hcourse.short _ List.getLastD_mem_cons
      refine ⟨_, hshort, ?_, _, rfl, hterminal, _, hcourse.few, hderivation⟩
      rintro n rfl
      simpa [eq_comm] using hfits
  · rintro ⟨length, hmax, hexactly, word, rfl, hterminal, steps, hsteps, hderivation⟩
    obtain ⟨later, hchain, hlength, rfl⟩ :=
      hderivation.exists_chain (hg.not_mem_nonterminals (Alphabet.isTerminalWord_iff.mpr hterminal))
    rw [← hstep] at hchain
    have hlast := hg.length_le_last hchain
    refine ⟨later, hchain, fun w hw => ?_, by omega, ?_⟩
    · exact Nat.le_trans (hlast w (List.mem_cons_of_mem _ hw)) hmax
    · refine ⟨hterminal, ?_⟩
      cases target with
      | any => exact .inl rfl
      | exactly n => exact .inr (congrArg Target.exactly (hexactly n rfl).symm)

theorem isSome_derive_iff (hg : grammar.Valid) (hrules : grammar.rules = .contextFree rules)
    {target : Target} {σ : Type} [Source σ] {source : σ} {outcome : Outcome σ}
    (h : grammar.derive target source = some outcome) :
    outcome.derivation.isSome ↔
      ∃ length ≤ grammar.config.maxLength, (∀ n, target = .exactly n → length = n) ∧
        grammar.FreelyDerivable rules length :=
  (isSome_derivation_iff hg h).trans (exists_course_iff_freelyDerivable hg hrules)

/-- For context-free grammars the search decides the language of the grammar within its bounds: it
finds a word of a given length exactly if the length is in bounds and free derivations reach it, and
a word of any length exactly if this is so for some length. -/
theorem derive_decides_language (hg : grammar.Valid) (hrules : grammar.rules = .contextFree rules)
    {σ : Type} [Source σ] (source : σ) :
    (grammar.CanDraw source → ∀ target, (grammar.derive target source).isSome) ∧
      (∀ length outcome, grammar.derive (.exactly length) source = some outcome →
        (outcome.derivation.isSome ↔
          length ≤ grammar.config.maxLength ∧ grammar.FreelyDerivable rules length)) ∧
      ∀ outcome, grammar.derive .any source = some outcome →
        (outcome.derivation.isSome ↔
          ∃ length ≤ grammar.config.maxLength, grammar.FreelyDerivable rules length) := by
  refine ⟨fun hs target => grammar.isSome_deriveFrom _ target hs, ?_, ?_⟩
  · intro length outcome h
    rw [isSome_derive_iff hg hrules h]
    simp
  · intro outcome h
    rw [isSome_derive_iff hg hrules h]
    simp

/-- Of two occurrences of one nonterminal this derivation replaces the second one first. -/
theorem freelyDerivable_unitCycle {rules : ContextFreeRules}
    (hrules : unitCycle.rules = .contextFree rules) : unitCycle.FreelyDerivable rules 2 := by
  cases hrules
  refine ⟨['a', 'a'], rfl, Alphabet.isTerminalWord_iff.mp rfl, 4, by decide, ?_⟩
  refine .step (@FreeStep.replace _ _ 'S' ['A', 'B'] [] [] (by decide) (by decide)) ?_
  refine .step (@FreeStep.replace _ _ 'B' ['A'] ['A'] [] (by decide) (by decide)) ?_
  refine .step (@FreeStep.replace _ _ 'A' ['a'] ['A'] [] (by decide) (by decide)) ?_
  exact .step (@FreeStep.replace _ _ 'A' ['a'] [] ['a'] (by decide) (by decide)) (.refl _)

theorem language_of_unitCycle :
    unitCycle.Valid ∧ ∃ outcome,
      unitCycle.derive (.exactly 2) (⟨[7, 4000000000]⟩ : Draws) = some outcome ∧
        outcome.derivation.isSome := by
  have hg : unitCycle.Valid := by decide
  obtain ⟨hsome, hexactly, -⟩ :=
    derive_decides_language hg rfl (⟨[7, 4000000000]⟩ : Draws)
  obtain ⟨outcome, houtcome⟩ := Option.isSome_iff_exists.mp (hsome (canDraw_draws _ _) (.exactly 2))
  exact ⟨hg, outcome, houtcome,
    (hexactly 2 outcome houtcome).mpr ⟨by decide, freelyDerivable_unitCycle rfl⟩⟩

end Grammar
end BoundedDerivation
