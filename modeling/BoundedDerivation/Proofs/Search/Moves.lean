import BoundedDerivation.Proofs.Drawing
import BoundedDerivation.Search.Derive

/-! The search taken apart into its moves. What entering a word, one turn of the loop and the whole
exploration can come to is said here once, case by case, with all that the search has found out on
the way to the case. Every property of searches is proved along these cases. -/
namespace BoundedDerivation.Search
open Randomness

variable {σ : Type} [Source σ]

/-- What entering a word comes to, one case for each of the tests in their order. -/
inductive Entry (problem : Problem) (word : Word) (depth : Nat) (memory : Memory σ) :
    Visit → Memory σ → Prop
  | found (result : problem.isResult word) : Entry problem word depth memory .found memory.enter
  | tooDeep (noResult : ¬problem.isResult word) (deep : problem.maxDepth < depth) :
      Entry problem word depth memory .refused (memory.enter.note (.depthReached word depth))
  | deadEnd (noResult : ¬problem.isResult word) (failed : memory.hasFailed word depth) :
      Entry problem word depth memory .refused memory.enter
  | opened {candidates : List Word} {source : σ} (noResult : ¬problem.isResult word)
      (shallow : depth ≤ problem.maxDepth) (fresh : ¬memory.hasFailed word depth)
      (drawn : problem.grammar.candidates word memory.source = some (candidates, source)) :
      Entry problem word depth memory (.opened ⟨word, depth, candidates, memory.trace.size⟩)
        { memory.enter with source, history := .expanded word depth :: memory.history }

theorem Entry.of_visit {problem : Problem} {word : Word} {depth : Nat} {memory memory' : Memory σ}
    {outcome : Visit} (h : visit problem word depth memory = some (outcome, memory')) :
    Entry problem word depth memory outcome memory' := by
  unfold visit at h
  split at h
  · rename_i hresult
    cases h
    exact .found hresult
  · rename_i hresult
    split at h
    · rename_i hdeep
      cases h
      exact .tooDeep hresult hdeep
    · rename_i hdeep
      split at h
      · rename_i hfailed
        cases h
        exact .deadEnd hresult hfailed
      · rename_i hfailed
        obtain ⟨_, hexpand, h⟩ := Option.map_eq_some_iff.mp h
        obtain ⟨⟨candidates, source⟩, hdrawn, hmemory⟩ := Option.bind_eq_some_iff.mp hexpand
        cases hmemory
        cases h
        exact .opened hresult (Nat.le_of_not_lt hdeep) hfailed hdrawn

/-- Only drawing candidates can keep a word from being entered. -/
theorem candidates_eq_none_of_visit {problem : Problem} {word : Word} {depth : Nat}
    {memory : Memory σ} (h : visit problem word depth memory = none) :
    problem.grammar.candidates word memory.source = none := by
  unfold visit at h
  split at h
  · cases h
  · split at h
    · cases h
    · split at h
      · cases h
      · cases hdrawn : problem.grammar.candidates word memory.source with
        | none => rfl
        | some drawn => simp [Memory.expand, Memory.enter, hdrawn] at h

theorem Entry.drawsTo {problem : Problem} {word : Word} {depth : Nat} {memory memory' : Memory σ}
    {outcome : Visit} (h : Entry problem word depth memory outcome memory') :
    problem.grammar.DrawsTo memory.source memory'.source := by
  cases h with
  | found | tooDeep | deadEnd => exact .refl
  | opened _ _ _ hdrawn => exact .single ⟨word, _, hdrawn⟩

/-- One turn of the loop that does not end it. -/
inductive Move (problem : Problem) : State σ → State σ → Prop
  | exhausted {word : Word} {depth mark : Nat} {below : List Frame} {memory : Memory σ} :
      Move problem ⟨⟨word, depth, [], mark⟩ :: below, memory⟩
        ⟨below, if below.isEmpty then (memory.note (.exhausted word depth)).bury word depth
          else ((memory.note (.exhausted word depth)).bury word depth).rollback (mark - 1)⟩
  | pruned {word candidate : Word} {depth mark : Nat} {candidates : List Word}
      {below : List Frame} {memory : Memory σ} (long : problem.limit < candidate.length) :
      Move problem ⟨⟨word, depth, candidate :: candidates, mark⟩ :: below, memory⟩
        ⟨⟨word, depth, candidates, mark⟩ :: below,
          memory.note (.pruned candidate problem.limit)⟩
  | refused {word candidate : Word} {depth mark : Nat} {candidates : List Word}
      {below : List Frame} {memory memory' : Memory σ} (short : candidate.length ≤ problem.limit)
      (entry : Entry problem candidate (depth + 1) (memory.push candidate) .refused memory') :
      Move problem ⟨⟨word, depth, candidate :: candidates, mark⟩ :: below, memory⟩
        ⟨⟨word, depth, candidates, mark⟩ :: below, memory'.rollback mark⟩
  | opened {word candidate : Word} {depth mark : Nat} {candidates : List Word}
      {below : List Frame} {memory memory' : Memory σ} {child : Frame}
      (short : candidate.length ≤ problem.limit)
      (entry : Entry problem candidate (depth + 1) (memory.push candidate) (.opened child) memory') :
      Move problem ⟨⟨word, depth, candidate :: candidates, mark⟩ :: below, memory⟩
        ⟨child :: ⟨word, depth, candidates, mark⟩ :: below, memory'⟩

/-- The last turn of the loop. -/
inductive Ending (problem : Problem) : State σ → Bool → Memory σ → Prop
  | empty {memory : Memory σ} : Ending problem ⟨[], memory⟩ false memory
  | found {word candidate : Word} {depth mark : Nat} {candidates : List Word}
      {below : List Frame} {memory memory' : Memory σ} (short : candidate.length ≤ problem.limit)
      (entry : Entry problem candidate (depth + 1) (memory.push candidate) .found memory') :
      Ending problem ⟨⟨word, depth, candidate :: candidates, mark⟩ :: below, memory⟩ true memory'

theorem Move.of_turn {problem : Problem} {state state' : State σ}
    (h : turn problem state = some (.going state')) : Move problem state state' := by
  obtain ⟨stack, memory⟩ := state
  rcases stack with _ | ⟨⟨word, depth, candidates, mark⟩, below⟩
  · cases h
  rcases candidates with _ | ⟨candidate, candidates⟩
  · cases h
    exact .exhausted
  · simp only [turn] at h
    split at h
    · rename_i hlong
      cases h
      exact .pruned hlong
    · rename_i hlong
      have hshort := Nat.le_of_not_lt hlong
      split at h
      · cases h
      · cases h
      · rename_i hvisit
        cases h
        exact .refused hshort (.of_visit hvisit)
      · rename_i hvisit
        cases h
        exact .opened hshort (.of_visit hvisit)

theorem Ending.of_turn {problem : Problem} {state : State σ} {success : Bool} {memory : Memory σ}
    (h : turn problem state = some (.ended success memory)) : Ending problem state success memory := by
  obtain ⟨stack, before⟩ := state
  rcases stack with _ | ⟨⟨word, depth, candidates, mark⟩, below⟩
  · cases h
    exact .empty
  rcases candidates with _ | ⟨candidate, candidates⟩
  · cases h
  · simp only [turn] at h
    split at h
    · cases h
    · rename_i hlong
      split at h
      · cases h
      · rename_i hvisit
        cases h
        exact .found (Nat.le_of_not_lt hlong) (.of_visit hvisit)
      · cases h
      · cases h

theorem candidates_eq_none_of_turn {problem : Problem} {state : State σ}
    (h : turn problem state = none) :
    ∃ word, problem.grammar.candidates word state.memory.source = none := by
  obtain ⟨stack, memory⟩ := state
  rcases stack with _ | ⟨⟨word, depth, candidates, mark⟩, below⟩
  · cases h
  rcases candidates with _ | ⟨candidate, candidates⟩
  · cases h
  · simp only [turn] at h
    split at h
    · cases h
    · split at h
      · rename_i hvisit
        have hnone := candidates_eq_none_of_visit hvisit
        exact ⟨candidate, hnone⟩
      · cases h
      · cases h
      · cases h

theorem Move.drawsTo {problem : Problem} {state state' : State σ} (h : Move problem state state') :
    problem.grammar.DrawsTo state.memory.source state'.memory.source := by
  cases h with
  | @exhausted word depth mark below memory =>
    cases below <;> exact .refl
  | pruned => exact .refl
  | refused _ hentry => exact hentry.drawsTo
  | opened _ hentry => exact hentry.drawsTo

theorem Ending.drawsTo {problem : Problem} {state : State σ} {success : Bool} {memory : Memory σ}
    (h : Ending problem state success memory) :
    problem.grammar.DrawsTo state.memory.source memory.source := by
  cases h with
  | empty => exact .refl
  | found _ hentry => exact hentry.drawsTo

theorem run_of_ended {problem : Problem} {state : State σ} {success : Bool} {memory : Memory σ}
    (h : turn problem state = some (.ended success memory)) :
    run problem state = some (success, memory) := by
  rw [run]
  split <;> simp_all

theorem run_of_going {problem : Problem} {state next : State σ}
    (h : turn problem state = some (.going next)) : run problem state = run problem next := by
  rw [run]
  split <;> simp_all

/-- The states that the loop passes through in the search for a start word. -/
inductive LoopState (problem : Problem) (start : Word) (source : σ) : State σ → Prop
  | opening {frame : Frame} {memory : Memory σ}
      (entry : Entry problem start 0 (Memory.initial start source) (.opened frame) memory) :
      LoopState problem start source ⟨[frame], memory⟩
  | move {state state' : State σ} (before : LoopState problem start source state)
      (move : Move problem state state') : LoopState problem start source state'

theorem LoopState.drawsTo {problem : Problem} {start : Word} {source : σ} {state : State σ}
    (h : LoopState problem start source state) :
    problem.grammar.DrawsTo source state.memory.source := by
  induction h with
  | opening hentry => exact hentry.drawsTo
  | move _ hmove ih => exact ih.trans hmove.drawsTo

/-- One turn leads from a state to the next one. -/
def Goes (problem : Problem) (state next : State σ) : Prop :=
  turn problem state = some (.going next)

/-- What a state comes to in any number of turns. -/
def Later (problem : Problem) : State σ → State σ → Prop :=
  Relation.ReflTransGen (Goes problem)

/-- The states in which the loop starts a turn, in the search for a start word. -/
def Iteration (problem : Problem) (start : Word) (source : σ) (state : State σ) : Prop :=
  ∃ frame memory,
    visit problem start 0 (Memory.initial start source) = some (.opened frame, memory) ∧
      Later problem ⟨[frame], memory⟩ state

theorem Iteration.later {problem : Problem} {start : Word} {source : σ} {state next : State σ}
    (h : Iteration problem start source state) (hlater : Later problem state next) :
    Iteration problem start source next := by
  obtain ⟨frame, memory, hvisit, hstate⟩ := h
  exact ⟨frame, memory, hvisit, Relation.ReflTransGen.trans hstate hlater⟩

/-- What holds along the moves of the loop holds at every turn. -/
theorem Iteration.loopState {problem : Problem} {start : Word} {source : σ} {state : State σ}
    (h : Iteration problem start source state) : LoopState problem start source state := by
  obtain ⟨frame, memory, hvisit, hstate⟩ := h
  induction hstate with
  | refl => exact .opening (.of_visit hvisit)
  | tail _ hgoes ih => exact ih.move (.of_turn hgoes)

/-- At every turn of its loop a search has still to come to what it comes to as a whole. -/
theorem Iteration.explore_eq {problem : Problem} {start : Word} {source : σ} {state : State σ}
    (h : Iteration problem start source state) :
    explore problem start (Memory.initial start source) = run problem state := by
  obtain ⟨frame, memory, hvisit, hstate⟩ := h
  induction hstate with
  | refl => simp only [explore, hvisit]
  | tail _ hgoes ih => rw [ih, run_of_going hgoes]

/-- What the whole search comes to. -/
inductive Exploration (problem : Problem) (start : Word) (source : σ) : Bool → Memory σ → Prop
  | found {memory : Memory σ}
      (entry : Entry problem start 0 (Memory.initial start source) .found memory) :
      Exploration problem start source true memory
  | refused {memory : Memory σ}
      (entry : Entry problem start 0 (Memory.initial start source) .refused memory) :
      Exploration problem start source false memory
  | loop {state : State σ} {success : Bool} {memory : Memory σ}
      (last : LoopState problem start source state) (ending : Ending problem state success memory) :
      Exploration problem start source success memory

theorem Exploration.drawsTo {problem : Problem} {start : Word} {source : σ} {success : Bool}
    {memory : Memory σ} (h : Exploration problem start source success memory) :
    problem.grammar.DrawsTo source memory.source := by
  cases h with
  | found hentry | refused hentry => exact hentry.drawsTo
  | loop hlast hending => exact hlast.drawsTo.trans hending.drawsTo

section
variable {problem : Problem} {start : Word} {source : σ} {state : State σ}

theorem LoopState.exploration_of_run (h : LoopState problem start source state) {success : Bool}
    {memory : Memory σ} (hrun : run problem state = some (success, memory)) :
    Exploration problem start source success memory := by
  fun_induction run problem state with
  | case1 => cases hrun
  | case2 state success' memory' hturn =>
    cases hrun
    exact .loop h (.of_turn hturn)
  | case3 state next hturn ih => exact ih (h.move (.of_turn hturn)) hrun

theorem LoopState.candidates_eq_none_of_run (h : LoopState problem start source state)
    (hrun : run problem state = none) :
    ∃ word later, problem.grammar.DrawsTo source later ∧
      problem.grammar.candidates word later = none := by
  fun_induction run problem state with
  | case1 state hturn =>
    obtain ⟨word, hword⟩ := candidates_eq_none_of_turn hturn
    exact ⟨word, _, h.drawsTo, hword⟩
  | case2 => cases hrun
  | case3 state next hturn ih => exact ih (h.move (.of_turn hturn)) hrun

theorem Exploration.of_explore {success : Bool} {memory : Memory σ}
    (h : explore problem start (Memory.initial start source) = some (success, memory)) :
    Exploration problem start source success memory := by
  unfold explore at h
  split at h
  · cases h
  · rename_i hvisit
    cases h
    exact .found (.of_visit hvisit)
  · rename_i hvisit
    cases h
    exact .refused (.of_visit hvisit)
  · rename_i hvisit
    exact (LoopState.opening (.of_visit hvisit)).exploration_of_run h

/-- A search comes to nothing only if the source fails it while candidates are drawn. -/
theorem isSome_explore (problem : Problem) (start : Word)
    (h : problem.grammar.CanDraw source) :
    (explore problem start (Memory.initial start source)).isSome := by
  by_contra hnone
  have hcandidates : ∃ word later, problem.grammar.DrawsTo source later ∧
      problem.grammar.candidates word later = none := by
    rw [Option.not_isSome_iff_eq_none] at hnone
    unfold explore at hnone
    split at hnone
    · rename_i hvisit
      exact ⟨start, source, .refl, candidates_eq_none_of_visit hvisit⟩
    · cases hnone
    · cases hnone
    · rename_i hvisit
      exact (LoopState.opening (.of_visit hvisit)).candidates_eq_none_of_run hnone
  obtain ⟨word, later, hlater, hword⟩ := hcandidates
  have hsome := h word later hlater
  simp [hword] at hsome

end
end BoundedDerivation.Search
