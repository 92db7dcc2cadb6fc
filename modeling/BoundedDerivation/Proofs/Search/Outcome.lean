import BoundedDerivation.Proofs.Checking
import BoundedDerivation.Proofs.Search.DeadEnds

/-! What a search answers. It returns a derivation exactly when there is a course from the start
word to a result, and the derivation that it returns is such a course. Which course that is depends
on the random source; whether there is one does not. -/
namespace BoundedDerivation
namespace Search
open Randomness

/-- A course within the limits of a search that is over as soon as it meets a result. -/
structure DirectCourse (problem : Problem) (start : Word) (later : List Word) : Prop
    extends Course problem problem.limit (problem.maxDepth + 1) start later where
  direct : ∀ word ∈ (start :: later).dropLast, ¬Result problem word

variable {σ : Type} [Source σ] {problem : Problem} {start : Word} {source : σ}

/-- A result on top of a tower completes a course. -/
theorem Tower.directCourse {frame : Frame} {below : List Frame} {result : Word}
    (h : Tower problem start (frame :: below)) (hstep : problem.grammar.Step frame.word result)
    (hshort : result.length ≤ problem.limit) (hresult : problem.isResult result) :
    ∃ later, path (frame :: below) ++ [result] = start :: later ∧
      DirectCourse problem start later := by
  obtain ⟨later, hpath⟩ : ∃ later, path (frame :: below) = start :: later := by
    have hhead := h.head?_path
    exact ⟨_, (List.cons_head?_tail hhead).symm⟩
  refine ⟨later ++ [result], by rw [hpath, List.cons_append], ?_⟩
  have hchain := h.isChain_path
  have hpathShort := h.short_path
  have hnoResult := h.noResult_path
  have hlength : later.length = below.length := by
    have := congrArg List.length hpath
    simpa using this.symm
  have hheight := h.placed.shallow
  rw [hpath] at hchain hpathShort hnoResult
  have hlast : (start :: later).getLast? = some frame.word := by simp [← hpath]
  refine ⟨⟨?_, ?_, ?_, ?_⟩, ?_⟩
  · rw [← List.cons_append]
    refine List.isChain_append.mpr ⟨hchain, .singleton _, ?_⟩
    simpa [hlast] using hstep
  · exact List.forall_mem_append.mpr ⟨hpathShort, List.forall_mem_singleton.mpr hshort⟩
  · simp only [List.length_append, List.length_singleton]
    omega
  · simpa using isResult_iff.mp hresult
  · rw [← List.cons_append, List.dropLast_concat]
    exact fun word hword => mt isResult_iff.mpr (hnoResult word hword)

theorem Exploration.directCourse {memory : Memory σ}
    (h : Exploration problem start source true memory) :
    ∃ later, memory.trace.toList = start :: later ∧ DirectCourse problem start later := by
  cases h with
  | found hentry =>
    refine ⟨[], by simp [hentry.trace_eq, Memory.initial], ?_⟩
    cases hentry with
    | found hresult => exact ⟨course_nil_iff.mpr hresult, by simp⟩
  | loop hlast hending =>
    cases hending with
    | @found word candidate depth mark candidates below memory memory' hshort hentry =>
      have haligned := hlast.aligned
      have htrace := haligned.trace (by simp)
      have hstep := haligned.tower.placed.candidates candidate List.mem_cons_self
      have hresult : problem.isResult candidate := by
        cases hentry with
        | found hresult => exact hresult
      obtain ⟨later, hpath, hcourse⟩ := haligned.tower.directCourse hstep hshort hresult
      refine ⟨later, ?_, hcourse⟩
      dsimp only at htrace
      rw [hentry.trace_eq, Memory.trace_push, htrace, hpath]

end Search

namespace Grammar
open Randomness Search

variable {σ : Type} [Source σ]

theorem exists_exploration {grammar : Grammar} {start : Word} {target : Target} {source : σ}
    {outcome : Outcome σ} (h : grammar.deriveFrom start target source = some outcome) :
    ∃ success memory, Exploration ⟨grammar, target⟩ start source success memory ∧
      outcome.derivation = if success then some ⟨memory.trace.toList⟩ else none := by
  obtain ⟨⟨success, memory⟩, hexplore, houtcome⟩ := Option.bind_eq_some_iff.mp h
  cases houtcome
  exact ⟨success, memory, .of_explore hexplore, rfl⟩

/-- A search does nothing to the random source but draw candidates. -/
theorem drawsTo_of_deriveFrom {grammar : Grammar} {start : Word} {target : Target} {source : σ}
    {outcome : Outcome σ} (h : grammar.deriveFrom start target source = some outcome) :
    grammar.DrawsTo source outcome.source := by
  obtain ⟨⟨success, memory⟩, hexplore, houtcome⟩ := Option.bind_eq_some_iff.mp h
  cases houtcome
  exact (Exploration.of_explore hexplore).drawsTo

theorem isSome_deriveFrom (grammar : Grammar) (start : Word) (target : Target) {source : σ}
    (h : grammar.CanDraw source) : (grammar.deriveFrom start target source).isSome := by
  obtain ⟨⟨success, memory⟩, hexplore⟩ :=
    Option.isSome_iff_exists.mp (isSome_explore ⟨grammar, target⟩ start h)
  simp [deriveFrom, hexplore]

theorem exists_directCourse {grammar : Grammar} {start : Word} {target : Target} {source : σ}
    {outcome : Outcome σ} {derivation : Derivation}
    (h : grammar.deriveFrom start target source = some outcome)
    (hd : outcome.derivation = some derivation) :
    ∃ later, derivation.words = start :: later ∧ DirectCourse ⟨grammar, target⟩ start later := by
  obtain ⟨success, memory, hexploration, hderivation⟩ := exists_exploration h
  rw [hd] at hderivation
  cases success with
  | false => cases hderivation
  | true =>
    cases hderivation
    exact hexploration.directCourse

/-- Finding is a matter of what there is to find: the random source has no part in it. -/
theorem isSome_derivation_iff_solvable {grammar : Grammar} {start : Word} {target : Target}
    {source : σ} {outcome : Outcome σ} (h : grammar.deriveFrom start target source = some outcome) :
    outcome.derivation.isSome ↔ Solvable ⟨grammar, target⟩ (Problem.limit ⟨grammar, target⟩)
      (grammar.config.maxDepth + 1) start := by
  obtain ⟨success, memory, hexploration, hderivation⟩ := exists_exploration h
  cases success with
  | false =>
    simp only [hderivation, Bool.false_eq_true, if_false, Option.isSome_none, false_iff]
    exact hexploration.hopeless
  | true =>
    obtain ⟨later, -, hcourse⟩ := hexploration.directCourse
    simp only [hderivation, if_true, Option.isSome_some, true_iff]
    exact ⟨later, hcourse.toCourse⟩

/-- For valid grammars the length bound alone says what there is to find. -/
theorem isSome_derivation_iff {grammar : Grammar} (hg : grammar.Valid) {start : Word}
    {target : Target} {source : σ} {outcome : Outcome σ}
    (h : grammar.deriveFrom start target source = some outcome) :
    outcome.derivation.isSome ↔
      Solvable ⟨grammar, target⟩ grammar.config.maxLength (grammar.config.maxDepth + 1) start :=
  (isSome_derivation_iff_solvable h).trans (solvable_limit_iff hg)

/-- Two nonterminals that turn into each other for ever, beside the rules that end it. -/
def unitCycle : Grammar where
  alphabet := ⟨.ofList ['S', 'A', 'B'], .ofList ['a', 'b']⟩
  start := 'S'
  rules := .contextFree <|
    [⟨'S', ['A', 'B']⟩, ⟨'A', ['a']⟩, ⟨'A', ['B']⟩, ⟨'B', ['b']⟩, ⟨'B', ['A']⟩].foldl .insert .empty
  config := { maxDepth := 4, maxLength := 3 }

/-- A course that runs through the cycle once, with no step to spare. -/
theorem course_unitCycle : Course ⟨unitCycle, .exactly 2⟩ 3 5 ['S']
    [['A', 'B'], ['B', 'B'], ['A', 'B'], ['a', 'B'], ['a', 'b']] :=
  ⟨by decide, by decide, by decide, by decide⟩

/-- Completeness. Unless the random source fails it, a search comes to an answer, and it finds a
derivation exactly when some course within the length and depth bounds of the grammar leads to a
result. Neither buried words nor the tighter limit lose one, and no two sources disagree. -/
theorem derivation_found_iff_course_exists {grammar : Grammar} (hg : grammar.Valid) (start : Word)
    (target : Target) (source : σ) :
    (grammar.CanDraw source → (grammar.deriveFrom start target source).isSome) ∧
      ∀ outcome, grammar.deriveFrom start target source = some outcome →
        (outcome.derivation.isSome ↔ ∃ later, Course ⟨grammar, target⟩ grammar.config.maxLength
          (grammar.config.maxDepth + 1) start later) ∧
        ∀ (τ : Type) [Source τ] (other : τ) (outcome' : Outcome τ),
          grammar.deriveFrom start target other = some outcome' →
            outcome'.derivation.isSome = outcome.derivation.isSome := by
  refine ⟨grammar.isSome_deriveFrom start target, fun outcome h => ?_⟩
  have hiff := isSome_derivation_iff hg h
  refine ⟨hiff, fun τ _ other outcome' h' => ?_⟩
  exact Bool.eq_iff_iff.mpr ((isSome_derivation_iff hg h').trans hiff.symm)

theorem derivation_found_in_unitCycle :
    unitCycle.Valid ∧ ∃ outcome,
      unitCycle.deriveFrom ['S'] (.exactly 2) (⟨[7, 4000000000]⟩ : Draws) = some outcome ∧
        outcome.derivation.isSome := by
  have hg : unitCycle.Valid := by decide
  obtain ⟨hsome, hfinds⟩ :=
    derivation_found_iff_course_exists hg ['S'] (.exactly 2) (⟨[7, 4000000000]⟩ : Draws)
  obtain ⟨outcome, houtcome⟩ := Option.isSome_iff_exists.mp (hsome (canDraw_draws _ _))
  exact ⟨hg, outcome, houtcome, (hfinds outcome houtcome).1.mpr ⟨_, course_unitCycle⟩⟩

/-- Soundness. What a search returns begins at the start word, goes on by steps of the grammar within
all bounds and ends at its first result; from the start symbol it is a derivation that passes the
check of the grammar. -/
theorem derivation_is_direct_course {grammar : Grammar} {start : Word} {target : Target}
    {source : σ} {outcome : Outcome σ} {derivation : Derivation}
    (h : grammar.deriveFrom start target source = some outcome)
    (hd : outcome.derivation = some derivation) :
    (∃ later, derivation.words = start :: later ∧ DirectCourse ⟨grammar, target⟩ start later) ∧
      (start = grammar.startWord → grammar.checkDerivation derivation = .ok ()) := by
  obtain ⟨later, hwords, hcourse⟩ := exists_directCourse h hd
  refine ⟨⟨later, hwords, hcourse⟩, ?_⟩
  rintro rfl
  have hresult : derivation.result = later.getLastD grammar.startWord := by
    rw [Derivation.result, hwords, List.getLastD_cons]
  have hterminal : grammar.alphabet.isTerminalWord derivation.result := by
    rw [hresult]
    exact Alphabet.isTerminalWord_iff.mpr hcourse.ends.terminal
  exact checkDerivation_eq_ok_iff.mpr ⟨later, hwords, hwords ▸ hcourse.follows, hterminal⟩

theorem direct_course_in_unitCycle :
    ∃ outcome derivation,
      unitCycle.derive (.exactly 2) (⟨[7, 4000000000]⟩ : Draws) = some outcome ∧
        outcome.derivation = some derivation ∧ unitCycle.checkDerivation derivation = .ok () := by
  obtain ⟨outcome, houtcome⟩ := Option.isSome_iff_exists.mp
    (unitCycle.isSome_deriveFrom ['S'] (.exactly 2) (canDraw_draws _ (⟨[7, 4000000000]⟩ : Draws)))
  have hsome := (isSome_derivation_iff (by decide) houtcome).mpr ⟨_, course_unitCycle⟩
  obtain ⟨derivation, hderivation⟩ := Option.isSome_iff_exists.mp hsome
  have hchecked := (derivation_is_direct_course houtcome hderivation).2 rfl
  exact ⟨outcome, derivation, houtcome, hderivation, hchecked⟩

end Grammar
end BoundedDerivation
