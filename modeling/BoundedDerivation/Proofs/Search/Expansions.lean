import BoundedDerivation.Proofs.Search.Outcome
import Mathlib.Algebra.GroupWithZero.Nat

/-! How much a search does. The candidates of a word are drawn at most once at each depth: while
they are being tried, the frames above lie deeper, and once they have failed the word stays buried
at that depth or a lesser one. Every turn of the loop takes one candidate or drops one frame, so the
turns are paid for by the candidates that have been drawn. -/
namespace BoundedDerivation.Search
open Randomness

def Note.expansion? : Note → Option (Word × Nat)
  | expanded word depth => some (word, depth)
  | depthReached .. | exhausted .. | pruned .. => none

/-- The words whose candidates have been drawn, each with its depth, the latest one first. -/
def Memory.expansions {σ : Type} (memory : Memory σ) : List (Word × Nat) :=
  memory.history.filterMap Note.expansion?

def Note.exhaustion? : Note → Option (Word × Nat)
  | exhausted word depth => some (word, depth)
  | expanded .. | depthReached .. | pruned .. => none

/-- The words whose candidates have all failed, each with its depth, the latest one first. -/
def Memory.exhaustions {σ : Type} (memory : Memory σ) : List (Word × Nat) :=
  memory.history.filterMap Note.exhaustion?

/-- The words of a stack, each with its depth. -/
def places (stack : List Frame) : List (Word × Nat) :=
  stack.map fun frame => (frame.word, frame.depth)

/-- The frames that entering a word adds to the stack. -/
def Visit.frames : Visit → List Frame
  | found | refused => []
  | opened frame => [frame]

theorem Tower.depth_lt {problem : Problem} {start : Word} {stack : List Frame}
    (h : Tower problem start stack) : ∀ place ∈ places stack, place.2 < stack.length := by
  induction stack with
  | nil => simp [places]
  | cons frame below ih =>
    have hdepth := h.placed.depth
    refine List.forall_mem_cons.mpr ⟨?_, fun place hplace => ?_⟩
    · simp [hdepth]
    · have hbelow := ih h.pop place hplace
      rw [List.length_cons]
      omega

section
variable {σ : Type} {memory memory' : Memory σ} {word other : Word} {depth later : Nat}

theorem hasFailed_congr (h : memory'.deadEnds = memory.deadEnds) :
    memory'.hasFailed word depth = memory.hasFailed word depth := by
  rw [Memory.hasFailed, Memory.hasFailed, h]

theorem hasFailed_bury :
    (memory.bury word depth).hasFailed other later ↔
      if word = other then depth ≤ later else memory.hasFailed other later := by
  rw [hasFailed_iff, getElem?_bury]
  split
  · simp
  · exact hasFailed_iff.symm

/-- A word that has failed at one depth but not at another one has failed below that. -/
theorem lt_of_hasFailed (h : memory.hasFailed word later) (hfresh : ¬memory.hasFailed word depth) :
    depth < later := by
  obtain ⟨failed, hle, hentry⟩ := hasFailed_iff.mp h
  by_contra hge
  exact hfresh (hasFailed_iff.mpr ⟨failed, by omega, hentry⟩)

/-- Where words may be expanded: the start word at depth zero, and below it short words only. -/
structure Expandable (problem : Problem) (start : Word) (place : Word × Nat) : Prop where
  shallow : place.2 ≤ problem.maxDepth
  root : place.2 = 0 → place.1 = start
  short : 0 < place.2 → place.1.length ≤ problem.limit

/-- The open words are not buried at their places, and all others that have been expanded are. -/
structure Unrepeated (problem : Problem) (start : Word) (opened : List (Word × Nat))
    (memory : Memory σ) : Prop where
  fresh : ∀ place ∈ opened, ¬memory.hasFailed place.1 place.2
  settled : ∀ place ∈ memory.expansions, place ∈ opened ∨ memory.hasFailed place.1 place.2
  nodup : memory.expansions.Nodup
  expandable : ∀ place ∈ memory.expansions, Expandable problem start place

variable {problem : Problem} {start : Word} {opened : List (Word × Nat)}

theorem unrepeated_initial (problem : Problem) (start : Word) (source : σ) :
    Unrepeated problem start [] (Memory.initial start source) := by
  have hnone : (Memory.initial start source).expansions = [] := rfl
  exact ⟨by simp, by simp [hnone], by simp [hnone], by simp [hnone]⟩

theorem Unrepeated.of_eq (h : Unrepeated problem start opened memory)
    (hdeadEnds : memory'.deadEnds = memory.deadEnds)
    (hexpansions : memory'.expansions = memory.expansions) :
    Unrepeated problem start opened memory' := by
  refine ⟨?_, ?_, hexpansions ▸ h.nodup, hexpansions ▸ h.expandable⟩
  · simpa only [hasFailed_congr hdeadEnds] using h.fresh
  · simpa only [hasFailed_congr hdeadEnds, hexpansions] using h.settled

/-- Burying the highest word settles it. If it has failed before, that was deeper down. -/
theorem Unrepeated.bury (h : Unrepeated problem start ((word, depth) :: opened) memory)
    (hbelow : ∀ place ∈ opened, place.2 < depth) :
    Unrepeated problem start opened (memory.bury word depth) := by
  obtain ⟨hword, hopened⟩ := List.forall_mem_cons.mp h.fresh
  refine ⟨fun place hplace => ?_, fun place hplace => ?_, h.nodup, h.expandable⟩
  · rw [hasFailed_bury]
    split
    · exact Nat.not_le.mpr (hbelow place hplace)
    · exact hopened place hplace
  · rw [hasFailed_bury]
    rcases h.settled place hplace with hopen | hfailed
    · rcases List.mem_cons.mp hopen with rfl | hopen
      · exact .inr (by simp)
      · exact .inl hopen
    · right
      split
      · rename_i heq
        rw [← heq] at hfailed
        exact Nat.le_of_lt (lt_of_hasFailed hfailed hword)
      · exact hfailed

end

variable {σ : Type} [Source σ] {problem : Problem} {start : Word}

section
variable {word : Word} {depth : Nat} {memory memory' : Memory σ}

/-- What is opened is what is expanded. -/
theorem Entry.expansions_eq {outcome : Visit}
    (h : Entry problem word depth memory outcome memory') :
    memory'.expansions = places outcome.frames ++ memory.expansions := by
  cases h <;> rfl

/-- Entering a word exhausts none. -/
theorem Entry.exhaustions_eq {outcome : Visit}
    (h : Entry problem word depth memory outcome memory') :
    memory'.exhaustions = memory.exhaustions := by
  cases h <;> rfl

theorem Ending.expansions_eq {state : State σ} {success : Bool}
    (h : Ending problem state success memory) : memory.expansions = state.memory.expansions := by
  cases h with
  | empty => rfl
  | found _ hentry => exact hentry.expansions_eq

theorem Entry.fresh {frame : Frame}
    (h : Entry problem word depth memory (.opened frame) memory') :
    depth ≤ problem.maxDepth ∧ ¬memory.hasFailed word depth := by
  cases h with
  | opened _ hshallow hfresh => exact ⟨hshallow, hfresh⟩

/-- A word that is opened now has not been expanded at this depth before: it is not buried there,
and the words that are still open lie less deep. -/
theorem Unrepeated.opened {frame : Frame} {opened : List (Word × Nat)}
    (h : Unrepeated problem start opened memory)
    (hentry : Entry problem word depth memory (.opened frame) memory')
    (hroot : depth = 0 → word = start) (hshort : 0 < depth → word.length ≤ problem.limit)
    (hbelow : ∀ place ∈ opened, place.2 < depth) :
    Unrepeated problem start (places [frame] ++ opened) memory' := by
  obtain ⟨hshallow, hfresh⟩ := hentry.fresh
  have hplace : places [frame] = [(word, depth)] := by
    cases hentry
    rfl
  have hexpansions : memory'.expansions = (word, depth) :: memory.expansions := by
    rw [hentry.expansions_eq, Visit.frames, hplace, List.singleton_append]
  have hnew : (word, depth) ∉ memory.expansions := by
    intro hmem
    rcases h.settled _ hmem with hopen | hfailed
    · exact Nat.lt_irrefl _ (hbelow _ hopen)
    · exact hfresh hfailed
  rw [hplace, List.singleton_append]
  refine ⟨?_, ?_, ?_, ?_⟩
  · simp only [hasFailed_congr hentry.deadEnds_eq]
    exact List.forall_mem_cons.mpr ⟨hfresh, h.fresh⟩
  · simp only [hasFailed_congr hentry.deadEnds_eq, hexpansions]
    refine List.forall_mem_cons.mpr ⟨.inl List.mem_cons_self, fun place hplace => ?_⟩
    exact (h.settled place hplace).imp_left (List.mem_cons_of_mem _)
  · rw [hexpansions]
    exact List.nodup_cons.mpr ⟨hnew, h.nodup⟩
  · rw [hexpansions]
    exact List.forall_mem_cons.mpr ⟨⟨hshallow, hroot, hshort⟩, h.expandable⟩

end

theorem Unrepeated.move {state state' : State σ}
    (h : Unrepeated problem start (places state.stack) state.memory)
    (htower : Tower problem start state.stack) (hmove : Move problem state state') :
    Unrepeated problem start (places state'.stack) state'.memory := by
  cases hmove with
  | @exhausted word depth mark below memory =>
    have hdepth : depth = below.length := htower.placed.depth
    have hnoted : Unrepeated problem start ((word, depth) :: places below)
        (memory.note (.exhausted word depth)) := h.of_eq rfl rfl
    have hburied := hnoted.bury (hdepth ▸ htower.pop.depth_lt)
    dsimp only
    split
    · exact hburied
    · exact hburied.of_eq rfl rfl
  | pruned => exact h.of_eq rfl rfl
  | refused _ hentry =>
    have hexpansions := hentry.expansions_eq
    exact h.of_eq hentry.deadEnds_eq hexpansions
  | @opened word candidate depth mark candidates below memory memory' child hshort hentry =>
    have hdepth : depth = below.length := htower.placed.depth
    have hpushed : Unrepeated problem start
        (places (⟨word, depth, candidate :: candidates, mark⟩ :: below)) (memory.push candidate) :=
      h.of_eq rfl rfl
    refine hpushed.opened hentry (by omega) (fun _ => hshort) ?_
    exact hdepth ▸ htower.depth_lt

theorem LoopState.unrepeated {source : σ} {state : State σ}
    (h : LoopState problem start source state) :
    Unrepeated problem start (places state.stack) state.memory := by
  induction h with
  | opening hentry =>
    have hinitial := unrepeated_initial problem start source
    exact hinitial.opened hentry (fun _ => rfl) (by omega) (by simp)
  | move hbefore hmove ih => exact ih.move hbefore.aligned.tower hmove

/-- Whatever a search comes to, it has expanded no word twice at one depth. -/
theorem Exploration.unrepeated {source : σ} {success : Bool} {memory : Memory σ}
    (h : Exploration problem start source success memory) :
    memory.expansions.Nodup ∧ ∀ place ∈ memory.expansions, Expandable problem start place := by
  have hinitial := unrepeated_initial problem start source
  cases h with
  | found hentry =>
    rw [hentry.expansions_eq]
    exact ⟨hinitial.nodup, hinitial.expandable⟩
  | refused hentry =>
    rw [hentry.expansions_eq]
    exact ⟨hinitial.nodup, hinitial.expandable⟩
  | loop hlast hending =>
    rw [hending.expansions_eq]
    exact ⟨hlast.unrepeated.nodup, hlast.unrepeated.expandable⟩

/-- The loop ends with a verdict after a number of turns. -/
inductive LoopEnds (problem : Problem) : Nat → State σ → Bool → Memory σ → Prop
  | last {state : State σ} {success : Bool} {memory : Memory σ}
      (ended : turn problem state = some (.ended success memory)) :
      LoopEnds problem 1 state success memory
  | next {turns : Nat} {state state' : State σ} {success : Bool} {memory : Memory σ}
      (going : turn problem state = some (.going state'))
      (rest : LoopEnds problem turns state' success memory) :
      LoopEnds problem (turns + 1) state success memory

/-- The search ends with a verdict after a number of turns of its loop. There are none if the start
word is a result or refused. -/
inductive SearchEnds (problem : Problem) (start : Word) (source : σ) : Nat → Bool → Memory σ → Prop
  | found {memory : Memory σ}
      (visited : visit problem start 0 (Memory.initial start source) = some (.found, memory)) :
      SearchEnds problem start source 0 true memory
  | refused {memory : Memory σ}
      (visited : visit problem start 0 (Memory.initial start source) = some (.refused, memory)) :
      SearchEnds problem start source 0 false memory
  | loop {turns : Nat} {frame : Frame} {opened memory : Memory σ} {success : Bool}
      (visited : visit problem start 0 (Memory.initial start source) = some (.opened frame, opened))
      (loop : LoopEnds problem turns ⟨[frame], opened⟩ success memory) :
      SearchEnds problem start source turns success memory

theorem run_eq_some_iff {state : State σ} {success : Bool} {memory : Memory σ} :
    run problem state = some (success, memory) ↔
      ∃ turns, LoopEnds problem turns state success memory := by
  constructor
  · intro h
    fun_induction run problem state with
    | case1 => cases h
    | case2 state success' memory' hturn =>
      cases h
      exact ⟨1, .last hturn⟩
    | case3 state next hturn ih =>
      obtain ⟨turns, hrest⟩ := ih h
      exact ⟨turns + 1, .next hturn hrest⟩
  · rintro ⟨turns, h⟩
    induction h with
    | last hended => exact run_of_ended hended
    | next hgoing _ ih => exact (run_of_going hgoing).trans ih

theorem explore_eq_some_iff {source : σ} {success : Bool} {memory : Memory σ} :
    explore problem start (Memory.initial start source) = some (success, memory) ↔
      ∃ turns, SearchEnds problem start source turns success memory := by
  constructor
  · intro h
    unfold explore at h
    split at h
    · cases h
    · rename_i hvisit
      cases h
      exact ⟨0, .found hvisit⟩
    · rename_i hvisit
      cases h
      exact ⟨0, .refused hvisit⟩
    · rename_i hvisit
      obtain ⟨turns, hloop⟩ := run_eq_some_iff.mp h
      exact ⟨turns, .loop hvisit hloop⟩
  · rintro ⟨turns, h⟩
    cases h with
    | found hvisit => simp only [explore, hvisit]
    | refused hvisit => simp only [explore, hvisit]
    | loop hvisit hloop =>
      simp only [explore, hvisit]
      exact run_eq_some_iff.mpr ⟨turns, hloop⟩

/-- The turns that expansions are good for: one for each candidate, and one for the frame. -/
def allowance (problem : Problem) (expansions : List (Word × Nat)) : Nat :=
  (expansions.map fun place => (problem.grammar.successors place.1).length + 1).sum

/-- The turns that are left to a stack if nothing is added to it. -/
def backlog (stack : List Frame) : Nat := (stack.map fun frame => frame.candidates.length + 1).sum

/-- A word is opened with as many candidates as it has successors. -/
theorem Entry.allowance_eq {word : Word} {depth : Nat} {memory memory' : Memory σ} {outcome : Visit}
    (h : Entry problem word depth memory outcome memory') :
    allowance problem memory'.expansions =
      backlog outcome.frames + allowance problem memory.expansions := by
  rw [h.expansions_eq, allowance, List.map_append, List.sum_append]
  congr 1
  cases h with
  | found | tooDeep | deadEnd => rfl
  | @opened candidates source _ _ _ hdrawn =>
    have hperm := (problem.grammar.rearranges_candidates word memory.source).perm hdrawn
    simp [places, backlog, Visit.frames, hperm.length_eq]

/-- Every turn takes one off the backlog, whatever else it adds to that. -/
theorem Move.allowance_eq {state state' : State σ} (h : Move problem state state') :
    allowance problem state'.memory.expansions + backlog state.stack =
      allowance problem state.memory.expansions + backlog state'.stack + 1 := by
  cases h with
  | @exhausted word depth mark below memory =>
    have hkept : (if below.isEmpty then (memory.note (.exhausted word depth)).bury word depth else
        ((memory.note (.exhausted word depth)).bury word depth).rollback (mark - 1)).expansions =
          memory.expansions := by
      split <;> rfl
    simp only [hkept, backlog, List.map_cons, List.sum_cons, List.length_nil]
    omega
  | @pruned word candidate depth mark candidates below memory =>
    have hkept : (memory.note (.pruned candidate problem.limit)).expansions =
        memory.expansions := rfl
    simp only [hkept, backlog, List.map_cons, List.sum_cons, List.length_cons]
    omega
  | @refused word candidate depth mark candidates below memory memory' _ hentry =>
    have hallowed := hentry.allowance_eq
    change allowance problem memory'.expansions =
      0 + allowance problem memory.expansions at hallowed
    change allowance problem memory'.expansions + _ = _
    simp only [hallowed, backlog, List.map_cons, List.sum_cons, List.length_cons]
    omega
  | @opened word candidate depth mark candidates below memory memory' child _ hentry =>
    have hallowed := hentry.allowance_eq
    change _ = _ + allowance problem memory.expansions at hallowed
    simp only [hallowed, backlog, Visit.frames, List.map_cons, List.map_nil, List.sum_cons,
      List.sum_nil, List.length_cons]
    omega

theorem LoopEnds.turns_le {turns : Nat} {state : State σ} {success : Bool} {memory : Memory σ}
    (h : LoopEnds problem turns state success memory) :
    turns + allowance problem state.memory.expansions ≤
      backlog state.stack + allowance problem memory.expansions + 1 := by
  induction h with
  | last hended =>
    rw [(Ending.of_turn hended).expansions_eq]
    omega
  | next hgoing _ ih =>
    have hmove := (Move.of_turn hgoing).allowance_eq
    omega

/-- A search takes at most one turn for each candidate and for each word that it has expanded, and
one more to see that nothing is left. -/
theorem SearchEnds.turns_le {source : σ} {turns : Nat} {success : Bool} {memory : Memory σ}
    (h : SearchEnds problem start source turns success memory) :
    turns ≤ allowance problem memory.expansions + 1 := by
  cases h with
  | found | refused => omega
  | loop hvisit hloop =>
    have hopened := (Entry.of_visit hvisit).allowance_eq
    have hturns := hloop.turns_le
    change _ = backlog [_] + 0 at hopened
    dsimp only at hturns
    omega

end BoundedDerivation.Search

namespace BoundedDerivation.Grammar
open Randomness Search

/-- Every search from a list of draws ends. It has expanded no word twice at one depth, and only
within the bounds, which also bounds the turns that it has taken. -/
theorem search_ends_without_repetition (grammar : Grammar) (start : Word) (target : Target)
    (draws : Draws) :
    ∃ turns success memory, SearchEnds ⟨grammar, target⟩ start draws turns success memory ∧
      (∃ outcome, grammar.deriveFrom start target draws = some outcome ∧
        outcome.derivation = if success then some ⟨memory.trace.toList⟩ else none) ∧
      memory.expansions.Nodup ∧
      (∀ place ∈ memory.expansions, Expandable ⟨grammar, target⟩ start place) ∧
      turns ≤ allowance ⟨grammar, target⟩ memory.expansions + 1 := by
  have hsome := isSome_explore ⟨grammar, target⟩ start
    (grammar.canDraw_draws draws)
  obtain ⟨⟨success, memory⟩, hexplore⟩ := Option.isSome_iff_exists.mp hsome
  obtain ⟨turns, hends⟩ := explore_eq_some_iff.mp hexplore
  obtain ⟨hnodup, hexpandable⟩ := (Exploration.of_explore hexplore).unrepeated
  refine ⟨turns, success, memory, hends, ?_, hnodup, hexpandable, hends.turns_le⟩
  exact ⟨_, by rw [deriveFrom, hexplore]; rfl, rfl⟩

end BoundedDerivation.Grammar
