import BoundedDerivation.Proofs.Search.Expansions
import BoundedDerivation.Proofs.Search.Guidance

/-! Backtracking. The trace, the height of the stack, the depths and the marks all tell how far down a
search is. They never disagree, so going back to a mark takes off the trace just what the failed branch
has put on it; and the words that have been expanded are those that are still open and those that have
been exhausted. -/
namespace BoundedDerivation
namespace Search
open Randomness

variable {σ : Type} {problem : Problem} {start : Word}

/-- The trace names the words of the frames from the lowest one up, each a successor of the one
before, and every frame knows its place. -/
structure InStep (problem : Problem) (state : State σ) : Prop where
  trace : state.memory.trace.toList = path state.stack
  places : ∀ height frame, state.stack.reverse[height]? = some frame →
    frame.depth = height ∧ frame.mark = height + 1
  follows : (path state.stack).IsChain problem.grammar.Step
  marked : ∀ frame ∈ state.stack, 0 < frame.mark

theorem Tower.placed_of_getElem? {stack : List Frame} (h : Tower problem start stack) {height : Nat}
    {frame : Frame} (hframe : stack.reverse[height]? = some frame) :
    Placed problem frame height := by
  induction stack with
  | nil => simp at hframe
  | cons top below ih =>
    rw [List.reverse_cons] at hframe
    rcases Nat.lt_trichotomy height below.length with hlt | rfl | hgt
    · rw [List.getElem?_append_left (by simpa using hlt)] at hframe
      exact ih h.pop hframe
    · have htop : top = frame := by simpa using hframe
      exact htop ▸ h.placed
    · rw [List.getElem?_eq_none (by simp; omega)] at hframe
      cases hframe

theorem Aligned.inStep {state : State σ} (h : Aligned problem start state)
    (hstack : state.stack ≠ []) : InStep problem state := by
  refine ⟨h.trace hstack, fun height frame hframe => ?_, h.tower.isChain_path, fun frame hframe => ?_⟩
  · have hplaced := h.tower.placed_of_getElem? hframe
    exact ⟨hplaced.depth, hplaced.mark⟩
  · obtain ⟨height, hheight⟩ := List.mem_iff_getElem?.mp (List.mem_reverse.mpr hframe)
    have hplaced := h.tower.placed_of_getElem? hheight
    rw [hplaced.mark]
    exact Nat.succ_pos height

variable [Source σ]

/-- What has become of the candidate that was tried at a state: nothing yet, or it is under trial, on
top of the frames that it was a candidate of, or it has failed. When it had, those frames were the
whole stack again and the trace was what it had been. -/
inductive Branch (problem : Problem) (tried : State σ) (rest : List Frame) : State σ → Prop
  | untried : Branch problem tried rest tried
  | opened {frame : Frame} {frames : List Frame} {later : State σ}
      (stack : later.stack = frame :: frames ++ rest) : Branch problem tried rest later
  | failed {failed later : State σ} (first : Later problem tried failed)
      (stack : failed.stack = rest) (restored : failed.memory.trace = tried.memory.trace)
      (onward : Later problem failed later) : Branch problem tried rest later

/-- A turn that tries a candidate puts at most one frame on top of those below. -/
theorem Move.stack_of_candidate {word candidate : Word} {depth mark : Nat} {candidates : List Word}
    {below : List Frame} {state next : State σ} (h : Move problem state next)
    (hstack : state.stack = ⟨word, depth, candidate :: candidates, mark⟩ :: below) :
    ∃ frames, next.stack = frames ++ ⟨word, depth, candidates, mark⟩ :: below := by
  cases h with
  | exhausted => cases hstack
  | pruned | refused =>
    cases hstack
    exact ⟨[], rfl⟩
  | @opened _ _ _ _ _ _ _ _ child =>
    cases hstack
    exact ⟨[child], rfl⟩

/-- A turn leaves all frames but the highest one alone. -/
theorem Move.stack_above {frame : Frame} {frames rest : List Frame} {state next : State σ}
    (h : Move problem state next) (hstack : state.stack = frame :: frames ++ rest) :
    ∃ frames, next.stack = frames ++ rest := by
  cases h with
  | exhausted =>
    cases hstack
    exact ⟨frames, rfl⟩
  | @pruned word _ depth mark candidates =>
    cases hstack
    exact ⟨⟨word, depth, candidates, mark⟩ :: frames, rfl⟩
  | @refused word _ depth mark candidates =>
    cases hstack
    exact ⟨⟨word, depth, candidates, mark⟩ :: frames, rfl⟩
  | @opened word _ depth mark candidates _ _ _ child =>
    cases hstack
    exact ⟨child :: ⟨word, depth, candidates, mark⟩ :: frames, rfl⟩

section
variable {source : σ} {tried later : State σ} {word candidate : Word} {depth mark : Nat}
  {candidates : List Word} {below : List Frame}

/-- The trace only depends on the words of the frames. -/
theorem Iteration.trace_eq {state next : State σ} (h : Iteration problem start source state)
    (hnext : Iteration problem start source next) (hstack : state.stack ≠ [])
    (hpath : path next.stack = path state.stack) : next.memory.trace = state.memory.trace := by
  have hne : next.stack ≠ [] := by
    intro hnil
    have hlength := congrArg List.length hpath
    rw [length_path, length_path, hnil] at hlength
    exact hstack (List.length_eq_zero_iff.mp hlength.symm)
  apply Array.toList_inj.mp
  rw [hnext.loopState.aligned.trace hne, hpath, h.loopState.aligned.trace hstack]

theorem Iteration.branch_of_stack (h : Iteration problem start source tried)
    (htried : tried.stack = ⟨word, depth, candidate :: candidates, mark⟩ :: below)
    (hlater : Later problem tried later) {frames : List Frame}
    (hstack : later.stack = frames ++ ⟨word, depth, candidates, mark⟩ :: below) :
    Branch problem tried (⟨word, depth, candidates, mark⟩ :: below) later := by
  cases frames with
  | nil =>
    have hpath : path later.stack = path tried.stack := by
      rw [hstack, htried, List.nil_append, path_cons, path_cons]
    have hrestored := h.trace_eq (h.later hlater) (by simp [htried]) hpath
    exact .failed hlater hstack hrestored .refl
  | cons frame frames => exact .opened hstack

/-- A branch is not left before it has failed. -/
theorem Iteration.branch (h : Iteration problem start source tried)
    (htried : tried.stack = ⟨word, depth, candidate :: candidates, mark⟩ :: below)
    (hlater : Later problem tried later) :
    Branch problem tried (⟨word, depth, candidates, mark⟩ :: below) later := by
  induction hlater with
  | refl => exact .untried
  | tail hbefore hgoes ih =>
    have hmove := Move.of_turn hgoes
    have hnext := hbefore.tail hgoes
    cases ih with
    | untried =>
      obtain ⟨frames, hstack⟩ := hmove.stack_of_candidate htried
      exact h.branch_of_stack htried hnext hstack
    | opened hopen =>
      obtain ⟨frames, hstack⟩ := hmove.stack_above hopen
      exact h.branch_of_stack htried hnext hstack
    | failed hfirst hstack hrestored honward =>
      exact .failed hfirst hstack hrestored (honward.tail hgoes)

end

/-- A turn opens a word by expanding it and drops one by exhausting it. -/
theorem Move.length_expansions {state next : State σ} (h : Move problem state next) :
    next.memory.expansions.length + state.memory.exhaustions.length + state.stack.length =
      state.memory.expansions.length + next.memory.exhaustions.length + next.stack.length := by
  cases h with
  | @exhausted word depth mark below memory =>
    have hdropped : memory.expansions.length + memory.exhaustions.length + (below.length + 1) =
        memory.expansions.length + (memory.exhaustions.length + 1) + below.length := by omega
    dsimp only
    split <;> exact hdropped
  | pruned => rfl
  | @refused word candidate depth mark candidates below memory memory' _ hentry =>
    have hexpansions : memory'.expansions = memory.expansions := hentry.expansions_eq
    have hexhaustions : memory'.exhaustions = memory.exhaustions := hentry.exhaustions_eq
    change memory'.expansions.length + _ + _ = _ + memory'.exhaustions.length + _
    rw [hexpansions, hexhaustions]
    rfl
  | @opened word candidate depth mark candidates below memory memory' child _ hentry =>
    have hexpansions : memory'.expansions = places [child] ++ memory.expansions :=
      hentry.expansions_eq
    have hexhaustions : memory'.exhaustions = memory.exhaustions := hentry.exhaustions_eq
    simp only [hexpansions, hexhaustions, places, List.map_cons, List.map_nil,
      List.singleton_append, List.length_cons]
    omega

/-- Every word that has been expanded is open or has been exhausted. -/
theorem LoopState.length_expansions {source : σ} {state : State σ}
    (h : LoopState problem start source state) :
    state.memory.expansions.length = state.memory.exhaustions.length + state.stack.length := by
  induction h with
  | opening hentry =>
    rw [hentry.expansions_eq, hentry.exhaustions_eq]
    rfl
  | move _ hmove ih =>
    have hbalance := hmove.length_expansions
    omega

/-- What has been expanded and not exhausted when a search ends are the words before its result. -/
theorem Exploration.length_expansions {source : σ} {success : Bool} {last : Memory σ}
    (h : Exploration problem start source success last) :
    last.expansions.length =
      last.exhaustions.length + if success then last.trace.toList.length - 1 else 0 := by
  cases h with
  | found hentry =>
    rw [hentry.expansions_eq, hentry.exhaustions_eq, hentry.trace_eq]
    rfl
  | refused hentry =>
    rw [hentry.expansions_eq, hentry.exhaustions_eq]
    rfl
  | loop hlast hending =>
    have hlength := hlast.length_expansions
    cases hending with
    | empty => simpa using hlength
    | @found word candidate depth mark candidates below memory _ _ hentry =>
      have htrace := hlast.aligned.trace (by simp)
      have hsteps : last.trace.toList.length - 1 = below.length + 1 := by
        dsimp only at htrace
        rw [hentry.trace_eq, Memory.trace_push, htrace]
        simp
      have hexpansions : last.expansions = memory.expansions := hentry.expansions_eq
      have hexhaustions : last.exhaustions = memory.exhaustions := hentry.exhaustions_eq
      rw [hexpansions, hexhaustions, if_pos rfl, hsteps]
      exact hlength

end Search

namespace Grammar
open Randomness Search

variable {σ : Type} [Source σ]

/-- At every turn of the loop trace and stack agree, and no branch is left but with the trace that it
was entered with. At the end, the words that have been expanded and not exhausted make up the steps of
the derivation, and without a derivation there are none. -/
theorem trace_in_step_with_stack (grammar : Grammar) (start : Word) (target : Target) (source : σ) :
    (∀ state, Iteration ⟨grammar, target⟩ start source state → state.stack ≠ [] →
      InStep ⟨grammar, target⟩ state) ∧
    (∀ tried, Iteration ⟨grammar, target⟩ start source tried →
      ∀ word depth candidate candidates mark below,
        tried.stack = ⟨word, depth, candidate :: candidates, mark⟩ :: below →
          ∀ later, Later ⟨grammar, target⟩ tried later →
            Branch ⟨grammar, target⟩ tried (⟨word, depth, candidates, mark⟩ :: below) later) ∧
    ∀ outcome, grammar.deriveFrom start target source = some outcome →
      ∃ success memory,
        explore ⟨grammar, target⟩ start (Memory.initial start source) = some (success, memory) ∧
        outcome.derivation = (if success then some ⟨memory.trace.toList⟩ else none) ∧
        memory.expansions.length =
          memory.exhaustions.length + outcome.derivation.elim 0 Derivation.steps := by
  refine ⟨fun state hstate hstack => hstate.loopState.aligned.inStep hstack, ?_, ?_⟩
  · intro tried htried word depth candidate candidates mark below hstack later hlater
    exact htried.branch hstack hlater
  · intro outcome houtcome
    obtain ⟨⟨success, memory⟩, hexplore, hmade⟩ := Option.bind_eq_some_iff.mp houtcome
    have hlength := (Exploration.of_explore hexplore).length_expansions
    cases hmade
    refine ⟨success, memory, hexplore, rfl, hlength.trans ?_⟩
    cases success <;> rfl

end Grammar

namespace Search
open Randomness

/-- Only the second of the two rules of the start symbol leads to a word of three symbols. -/
def twoBranches : Problem where
  grammar :=
    { alphabet := ⟨.ofList ['S', 'A'], .ofList ['a', 'b']⟩
      start := 'S'
      rules := .contextFree <|
        [⟨'S', ['a']⟩, ⟨'S', ['b', 'A']⟩, ⟨'A', ['a', 'b']⟩].foldl .insert .empty
      config := { maxDepth := 2, maxLength := 3 } }
  target := .exactly 3

/-- If the first rule is tried first, its branch fails and leaves nothing in the trace. Three words are
expanded, and the two that are not exhausted are those before the result. -/
theorem trace_of_twoBranches :
    ∃ outcome memory,
      twoBranches.grammar.deriveFrom ['S'] twoBranches.target (⟨[2147483648]⟩ : Draws) =
        some outcome ∧
      explore twoBranches ['S'] (Memory.initial ['S'] (⟨[2147483648]⟩ : Draws)) =
        some (true, memory) ∧
      outcome.derivation = some ⟨[['S'], ['b', 'A'], ['b', 'a', 'b']]⟩ ∧
      memory.exhaustions = [(['a'], 1)] ∧ memory.expansions.length = 3 := by
  have hS : twoBranches.grammar.candidates ['S'] (⟨[2147483648]⟩ : Draws) =
      some ([['a'], ['b', 'A']], ⟨[]⟩) := by decide
  have ha : twoBranches.grammar.candidates ['a'] (⟨[]⟩ : Draws) = some ([], ⟨[]⟩) := by decide
  have hbA : twoBranches.grammar.candidates ['b', 'A'] (⟨[]⟩ : Draws) =
      some ([['b', 'a', 'b']], ⟨[]⟩) := by decide
  have hfresh : ∀ memory : Memory Draws, memory.deadEnds = ∅ →
      ¬((memory.note (.exhausted ['a'] 1)).bury ['a'] 1).hasFailed ['b', 'A'] 1 := by
    intro memory hempty
    simp [hasFailed_iff, getElem?_bury, Memory.note, hempty]
  have hvisit := @visit_of_open Draws _ twoBranches (Memory.initial ['S'] ⟨[2147483648]⟩) ['S'] 0 _ _
    (by decide) (by decide) (not_hasFailed_of_empty rfl) hS
  have hfirst : Iteration twoBranches ['S'] (⟨[2147483648]⟩ : Draws) _ := ⟨_, _, hvisit, .refl⟩
  have hsecond := hfirst.later
    (.single (turn_of_open (by decide) (by decide) (by decide) (not_hasFailed_of_empty rfl) ha))
  have hthird := hsecond.later (.single rfl)
  have hfourth := hthird.later
    (.single (turn_of_open (by decide) (by decide) (by decide) (hfresh _ rfl) hbA))
  have hrun := hfourth.explore_eq.trans (run_of_ended rfl)
  obtain ⟨memory, hexplore, htrace, hexhaustions⟩ : ∃ memory,
      explore twoBranches ['S'] (Memory.initial ['S'] (⟨[2147483648]⟩ : Draws)) =
          some (true, memory) ∧
        memory.trace.toList = [['S'], ['b', 'A'], ['b', 'a', 'b']] ∧
        memory.exhaustions = [(['a'], 1)] :=
    ⟨_, hrun, rfl, rfl⟩
  have houtcome : twoBranches.grammar.deriveFrom ['S'] twoBranches.target (⟨[2147483648]⟩ : Draws) =
      some ⟨some ⟨memory.trace.toList⟩, memory.source, _⟩ := congrArg (· >>= _) hexplore
  obtain ⟨-, -, hends⟩ := Grammar.trace_in_step_with_stack twoBranches.grammar ['S']
    twoBranches.target (⟨[2147483648]⟩ : Draws)
  obtain ⟨success, last, hlast, -, hlength⟩ := hends _ houtcome
  cases Option.some.inj (hlast.symm.trans hexplore)
  refine ⟨_, memory, houtcome, hexplore, by rw [htrace], hexhaustions, ?_⟩
  rw [hlength, hexhaustions, htrace]
  rfl

end Search
end BoundedDerivation
