import BoundedDerivation.Proofs.Search.Outcome
import BoundedDerivation.Proofs.Steering

/-! Every direct course can be what a search returns. Its words can be made the first candidates of
one another, and a search that is guided in this way goes straight down: it never backtracks, so
nothing is buried, and a word that it meets again is opened again. -/
namespace BoundedDerivation
namespace Search
open Randomness

/-- Each of the words is drawn as the first candidate of the word before it, which takes the source
to where it is in the end. -/
inductive Guided {σ : Type} [Source σ] (grammar : Grammar) : σ → Word → List Word → σ → Prop
  | arrived {source : σ} {word : Word} : Guided grammar source word [] source
  | onward {source later last : σ} {word next : Word} {others words : List Word}
      (drawn : grammar.candidates word source = some (next :: others, later))
      (rest : Guided grammar later next words last) :
      Guided grammar source word (next :: words) last

/-- The draws for one word after the other, put together. -/
theorem exists_guided {grammar : Grammar}
    (hnonterminals : grammar.alphabet.nonterminals.toList.length < UInt32.size)
    (hrules : grammar.rules.FitsDraws) {word : Word} {later : List Word}
    (h : (word :: later).IsChain grammar.Step) :
    ∃ draws last : Draws, Guided grammar draws word later last := by
  induction later generalizing word with
  | nil => exact ⟨⟨[]⟩, ⟨[]⟩, .arrived⟩
  | cons next later ih =>
    obtain ⟨hstep, hrest⟩ := List.isChain_cons_cons.mp h
    obtain ⟨⟨rest⟩, last, hguided⟩ := ih hrest
    obtain ⟨others, values, hvalues⟩ := grammar.steerable_candidates hnonterminals hrules hstep
    exact ⟨⟨values ++ rest⟩, last, .onward (hvalues rest) hguided⟩

theorem not_hasFailed_of_empty {σ : Type} {memory : Memory σ} {word : Word} {depth : Nat}
    (h : memory.deadEnds = ∅) : ¬memory.hasFailed word depth := by
  simp [Memory.hasFailed, h]

variable {σ : Type} [Source σ] {problem : Problem} {memory : Memory σ} {word : Word} {depth : Nat}

theorem visit_of_result (h : problem.isResult word) :
    visit problem word depth memory = some (.found, memory.enter) := by
  rw [visit, if_pos h]

theorem visit_of_open {candidates : List Word} {source : σ} (hresult : ¬problem.isResult word)
    (hshallow : depth ≤ problem.maxDepth) (hfresh : ¬memory.hasFailed word depth)
    (hdrawn : problem.grammar.candidates word memory.source = some (candidates, source)) :
    visit problem word depth memory =
      some (.opened ⟨word, depth, candidates, memory.trace.size⟩,
        { memory.enter with source, history := .expanded word depth :: memory.history }) := by
  rw [visit, if_neg hresult, if_neg (Nat.not_lt.mpr hshallow), if_neg hfresh]
  simp [Memory.expand, Memory.enter, hdrawn]

/-- A turn that opens the next candidate. -/
theorem turn_of_open {candidate : Word} {mark : Nat} {candidates drawn : List Word} {source : σ}
    {below : List Frame} (hshort : candidate.length ≤ problem.limit)
    (hresult : ¬problem.isResult candidate) (hshallow : depth + 1 ≤ problem.maxDepth)
    (hfresh : ¬memory.hasFailed candidate (depth + 1))
    (hdrawn : problem.grammar.candidates candidate memory.source = some (drawn, source)) :
    turn problem ⟨⟨word, depth, candidate :: candidates, mark⟩ :: below, memory⟩ =
      some (.going ⟨⟨candidate, depth + 1, drawn, (memory.push candidate).trace.size⟩ ::
          ⟨word, depth, candidates, mark⟩ :: below,
        { (memory.push candidate).enter with
          source, history := .expanded candidate (depth + 1) :: memory.history }⟩) := by
  have hvisit := @visit_of_open σ _ problem (memory.push candidate) candidate (depth + 1) drawn source
    hresult hshallow hfresh hdrawn
  simp only [turn, hvisit, if_neg (Nat.not_lt.mpr hshort)]
  rfl

/-- By induction on the words that are left: the first candidate is either the result or opened with
the next of the words as its own first candidate, and nothing has been buried yet. -/
theorem run_of_guided {next : Word} {others later : List Word} {mark : Nat} {below : List Frame}
    {last : σ} (hguided : Guided problem.grammar memory.source next later last)
    (hempty : memory.deadEnds = ∅)
    (hshort : next.length ≤ problem.limit)
    (hcourse : Course problem problem.limit (problem.maxDepth - depth) next later)
    (hdirect : ∀ w ∈ (next :: later).dropLast, ¬Result problem w) :
    ∃ memory', run problem ⟨⟨word, depth, next :: others, mark⟩ :: below, memory⟩ =
      some (true, memory') ∧ memory'.trace.toList = memory.trace.toList ++ next :: later ∧
        memory'.source = last := by
  induction later generalizing memory word next others depth mark below with
  | nil =>
    obtain ⟨⟩ := hguided
    have hvisit := @visit_of_result σ _ problem (memory.push next) next (depth + 1)
      (course_nil_iff.mp hcourse)
    have hturn : turn problem ⟨⟨word, depth, next :: others, mark⟩ :: below, memory⟩ =
        some (.ended true (memory.push next).enter) := by
      simp only [turn, hvisit, if_neg (Nat.not_lt.mpr hshort)]
    exact ⟨_, run_of_ended hturn, memory.trace_push next, rfl⟩
  | cons third later ih =>
    cases hguided with
    | @onward _ source _ _ _ others' _ hdrawn hrest =>
      obtain ⟨-, hthird, fewer, hfewer, hlater⟩ := course_cons_iff.mp hcourse
      rw [List.dropLast_cons_cons] at hdirect
      obtain ⟨hresult, hdirect⟩ := List.forall_mem_cons.mp hdirect
      obtain rfl : fewer = problem.maxDepth - (depth + 1) := by omega
      have hturn := @turn_of_open σ _ problem memory word depth next mark others _ source below hshort
        (mt isResult_iff.mp hresult) (by omega) (not_hasFailed_of_empty hempty) hdrawn
      obtain ⟨memory', hrun, htrace, hlast⟩ := @ih
        { (memory.push next).enter with
          source, history := .expanded next (depth + 1) :: memory.history }
        next (depth + 1) third others' (memory.push next).trace.size
        (⟨word, depth, others, mark⟩ :: below) hrest hempty hthird hlater hdirect
      refine ⟨memory', (run_of_going hturn).trans hrun, ?_, hlast⟩
      rw [htrace]
      change (memory.push next).trace.toList ++ _ = _
      simp

theorem explore_of_guided {source last : σ} {start : Word} {later : List Word}
    (hguided : Guided problem.grammar source start later last)
    (hcourse : DirectCourse problem start later) :
    ∃ memory, explore problem start (Memory.initial start source) = some (true, memory) ∧
      memory.trace.toList = start :: later ∧ memory.source = last := by
  cases hguided with
  | arrived =>
    have hvisit := @visit_of_result σ _ problem (Memory.initial start source) start 0
      (course_nil_iff.mp hcourse.toCourse)
    refine ⟨(Memory.initial start source).enter, ?_, rfl, rfl⟩
    simp only [explore, hvisit]
  | @onward _ source' _ _ next others later hdrawn hrest =>
    obtain ⟨-, hnext, fewer, hfewer, hlater⟩ := course_cons_iff.mp hcourse.toCourse
    obtain rfl : fewer = problem.maxDepth - 0 := by omega
    have hdirect := hcourse.direct
    rw [List.dropLast_cons_cons] at hdirect
    obtain ⟨hresult, hdirect⟩ := List.forall_mem_cons.mp hdirect
    have hvisit := @visit_of_open σ _ problem (Memory.initial start source) start 0 _ source'
      (mt isResult_iff.mp hresult) (Nat.zero_le _) (not_hasFailed_of_empty rfl) hdrawn
    obtain ⟨memory, hrun, htrace, hlast⟩ := @run_of_guided σ _ problem
      { (Memory.initial start source).enter with source := source', history := [.expanded start 0] }
      start 0 next others later 1 [] last hrest rfl hnext hlater hdirect
    refine ⟨memory, ?_, htrace, hlast⟩
    simp only [explore, hvisit]
    exact hrun

end Search

namespace Grammar
open Randomness Search

theorem deriveFrom_of_guided {σ : Type} [Source σ] {grammar : Grammar} {start : Word}
    {target : Target} {source last : σ} {later : List Word}
    (hguided : Guided grammar source start later last)
    (hcourse : DirectCourse ⟨grammar, target⟩ start later) :
    ∃ outcome, grammar.deriveFrom start target source = some outcome ∧
      outcome.derivation = some ⟨start :: later⟩ ∧ outcome.source = last := by
  obtain ⟨memory, hexplore, htrace, hlast⟩ := explore_of_guided hguided hcourse
  refine ⟨_, by rw [deriveFrom, hexplore]; rfl, ?_, hlast⟩
  simp [htrace]

/-- Every direct course can be drawn. Some list of draws makes the search return it and no other
derivation, even if it comes back to a word or leaves no step to spare. -/
theorem direct_course_can_be_drawn {grammar : Grammar}
    (hnonterminals : grammar.alphabet.nonterminals.toList.length < UInt32.size)
    (hrules : grammar.rules.FitsDraws) (start : Word) (target : Target) (later : List Word)
    (hcourse : DirectCourse ⟨grammar, target⟩ start later) :
    ∃ (draws : Draws) (outcome : Outcome Draws),
      grammar.deriveFrom start target draws = some outcome ∧
        outcome.derivation = some ⟨start :: later⟩ := by
  obtain ⟨draws, _, hguided⟩ := exists_guided hnonterminals hrules hcourse.follows
  obtain ⟨outcome, houtcome, hderivation, -⟩ := deriveFrom_of_guided hguided hcourse
  exact ⟨draws, outcome, houtcome, hderivation⟩

theorem fitsDraws_unitCycle : unitCycle.rules.FitsDraws := by
  intro symbol
  refine Nat.lt_of_le_of_lt (ContextFreeRules.length_alternatives_le_size _ symbol) ?_
  decide

/-- The course that comes back to a word of its own, which no first search would think of. -/
theorem cycle_drawn_in_unitCycle :
    unitCycle.rules.FitsDraws ∧ ∃ (draws : Draws) (outcome : Outcome Draws),
      unitCycle.deriveFrom ['S'] (.exactly 2) draws = some outcome ∧
        outcome.derivation =
          some ⟨[['S'], ['A', 'B'], ['B', 'B'], ['A', 'B'], ['a', 'B'], ['a', 'b']]⟩ := by
  refine ⟨fitsDraws_unitCycle, ?_⟩
  exact direct_course_can_be_drawn (by decide) fitsDraws_unitCycle _ _ _
    ⟨⟨by decide, by decide, by decide, by decide⟩, by decide⟩

end Grammar
end BoundedDerivation
