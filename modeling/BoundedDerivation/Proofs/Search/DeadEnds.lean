import BoundedDerivation.Proofs.Search.Alignment
import BoundedDerivation.Proofs.Search.Course

/-! Why it is safe to give words up. A word is hopeless at a depth if the steps left there lead from
it to no result. The loop only ever buries hopeless words, and every successor of an open word is
still to be tried, is open itself, or is hopeless: so nothing is left out when the loop ends. -/
namespace BoundedDerivation.Search
open Randomness

/-- No course with the steps that are left at this depth leads from the word to a result. -/
def Hopeless (problem : Problem) (depth : Nat) (word : Word) : Prop :=
  ¬Solvable problem problem.limit (problem.maxDepth + 1 - depth) word

/-- All short successors of the words on a stack are accounted for. Those of the highest word may
also be `pending`, as the word of a frame is for the frame below it. -/
inductive Accounted (problem : Problem) (start : Word) : Option Word → List Frame → Prop
  | root {pending : Option Word} (h : pending = some start ∨ Hopeless problem 0 start) :
      Accounted problem start pending []
  | frame {pending : Option Word} {frame : Frame} {below : List Frame}
      (h : ∀ next, problem.grammar.Step frame.word next → next.length ≤ problem.limit →
        next ∈ frame.candidates ∨ pending = some next ∨ Hopeless problem (below.length + 1) next)
      (rest : Accounted problem start (some frame.word) below) :
      Accounted problem start pending (frame :: below)

section
variable {problem : Problem} {start word next candidate : Word} {depth later mark : Nat}
  {below stack : List Frame} {candidates : List Word} {pending : Option Word}

theorem Hopeless.mono (h : Hopeless problem depth word) (hle : depth ≤ later) :
    Hopeless problem later word := by
  rintro ⟨course, hcourse⟩
  exact h ⟨course, hcourse.mono (Nat.le_refl _) (by omega)⟩

/-- Beyond the depth bound there are no steps left. -/
theorem hopeless_of_tooDeep (hresult : ¬problem.isResult word) (hdeep : problem.maxDepth < depth) :
    Hopeless problem depth word := by
  intro hsolvable
  rcases solvable_iff.mp hsolvable with h | ⟨next, fewer, -, -, hsteps, -⟩
  · exact hresult h
  · omega

theorem hopeless_of_successors (hresult : ¬problem.isResult word)
    (h : ∀ next, problem.grammar.Step word next → next.length ≤ problem.limit →
      Hopeless problem (depth + 1) next) : Hopeless problem depth word := by
  intro hsolvable
  rcases solvable_iff.mp hsolvable with hword | ⟨next, fewer, hstep, hshort, hsteps, hnext⟩
  · exact hresult hword
  · have hfewer : fewer = problem.maxDepth + 1 - (depth + 1) := by omega
    exact h next hstep hshort (hfewer ▸ hnext)

/-- A pending word that proves hopeless need not be pending any more. -/
theorem Accounted.settle (h : Accounted problem start (some word) stack)
    (hword : Hopeless problem stack.length word) : Accounted problem start none stack := by
  cases h with
  | root h =>
    rcases h with h | h
    · cases h
      exact .root (.inr hword)
    · exact .root (.inr h)
  | frame h hrest =>
    refine .frame (fun next hstep hshort => ?_) hrest
    rcases h next hstep hshort with hc | hp | hh
    · exact .inl hc
    · cases hp
      exact .inr (.inr hword)
    · exact .inr (.inr hh)

/-- The candidate that is tried next becomes pending. -/
theorem Accounted.skip
    (h : Accounted problem start none (⟨word, depth, candidate :: candidates, mark⟩ :: below)) :
    Accounted problem start (some candidate) (⟨word, depth, candidates, mark⟩ :: below) := by
  cases h with
  | frame h hrest =>
    refine .frame (fun next hstep hshort => ?_) hrest
    rcases h next hstep hshort with hc | hp | hh
    · rcases List.mem_cons.mp hc with rfl | hc
      · exact .inr (.inl rfl)
      · exact .inl hc
    · cases hp
    · exact .inr (.inr hh)

/-- Candidates that are too long are not accounted for in the first place. -/
theorem Accounted.prune (hlong : problem.limit < candidate.length)
    (h : Accounted problem start none (⟨word, depth, candidate :: candidates, mark⟩ :: below)) :
    Accounted problem start none (⟨word, depth, candidates, mark⟩ :: below) := by
  cases h with
  | frame h hrest =>
    refine .frame (fun next hstep hshort => ?_) hrest
    rcases h next hstep hshort with hc | hrest
    · rcases List.mem_cons.mp hc with rfl | hc
      · omega
      · exact .inl hc
    · exact .inr hrest

/-- A word without candidates is hopeless, and the frame below it can do without it. -/
theorem Accounted.exhaust (hresult : ¬problem.isResult word)
    (h : Accounted problem start none (⟨word, depth, [], mark⟩ :: below)) :
    Hopeless problem below.length word ∧ Accounted problem start none below := by
  cases h with
  | frame h hrest =>
    have hword : Hopeless problem below.length word := by
      refine hopeless_of_successors hresult fun next hstep hshort => ?_
      rcases h next hstep hshort with hc | hp | hh
      · cases hc
      · cases hp
      · exact hh
    exact ⟨hword, hrest.settle hword⟩

end

variable {σ : Type}

theorem hasFailed_iff {memory : Memory σ} {word : Word} {depth : Nat} :
    memory.hasFailed word depth ↔ ∃ failed ≤ depth, memory.deadEnds[word]? = some failed := by
  unfold Memory.hasFailed
  cases h : memory.deadEnds[word]? <;> simp

theorem getElem?_bury (memory : Memory σ) (word other : Word) (depth : Nat) :
    (memory.bury word depth).deadEnds[other]? =
      if word = other then some depth else memory.deadEnds[other]? := by
  simp [Memory.bury, Std.HashMap.getElem?_insert]

variable [Source σ] {problem : Problem} {start : Word}

/-- What the loop relies on: only hopeless words are buried, and no successor is lost. -/
structure Sound (problem : Problem) (start : Word) (state : State σ) : Prop where
  buried : ∀ word depth, state.memory.deadEnds[word]? = some depth → Hopeless problem depth word
  accounted : Accounted problem start none state.stack

theorem Entry.deadEnds_eq {word : Word} {depth : Nat} {memory memory' : Memory σ} {outcome : Visit}
    (h : Entry problem word depth memory outcome memory') : memory'.deadEnds = memory.deadEnds := by
  cases h <;> rfl

/-- A word is only ever refused if it is hopeless. -/
theorem Entry.hopeless {word : Word} {depth : Nat} {memory memory' : Memory σ}
    (h : Entry problem word depth memory .refused memory')
    (hburied : ∀ word depth, memory.deadEnds[word]? = some depth → Hopeless problem depth word) :
    Hopeless problem depth word := by
  cases h with
  | tooDeep hresult hdeep => exact hopeless_of_tooDeep hresult hdeep
  | deadEnd _ hfailed =>
    obtain ⟨failed, hle, hentry⟩ := hasFailed_iff.mp hfailed
    exact (hburied word failed hentry).mono hle

theorem Entry.accounted {word : Word} {depth : Nat} {memory memory' : Memory σ} {frame : Frame}
    {below : List Frame} (h : Entry problem word depth memory (.opened frame) memory')
    (hbelow : Accounted problem start (some word) below) :
    Accounted problem start none (frame :: below) := by
  cases h with
  | @opened candidates source _ _ _ hdrawn =>
    have hperm := (problem.grammar.rearranges_candidates word memory.source).perm hdrawn
    exact .frame (fun next hstep _ => .inl (hperm.mem_iff.mpr hstep)) hbelow

theorem Sound.opening {source : σ} {frame : Frame} {memory : Memory σ}
    (h : Entry problem start 0 (Memory.initial start source) (.opened frame) memory) :
    Sound problem start ⟨[frame], memory⟩ := by
  refine ⟨fun word depth hentry => ?_, h.accounted (.root (.inl rfl))⟩
  rw [h.deadEnds_eq] at hentry
  simp [Memory.initial] at hentry

theorem Sound.move {state state' : State σ} (h : Sound problem start state)
    (haligned : Aligned problem start state) (hmove : Move problem state state') :
    Sound problem start state' := by
  have hburied := h.buried
  have haccounted := h.accounted
  cases hmove with
  | @exhausted word depth mark below memory =>
    have hplaced := haligned.tower.placed
    obtain ⟨hword, hbelow⟩ := haccounted.exhaust hplaced.noResult
    have hdepth : depth = below.length := hplaced.depth
    have hclosed : ∀ other failed,
        ((memory.note (.exhausted word depth)).bury word depth).deadEnds[other]? = some failed →
          Hopeless problem failed other := by
      intro other failed hentry
      rw [getElem?_bury] at hentry
      split at hentry
      · rename_i hother
        cases hentry
        exact hother ▸ hdepth ▸ hword
      · exact hburied other failed hentry
    refine ⟨?_, hbelow⟩
    dsimp only
    split
    · exact hclosed
    · exact hclosed
  | pruned hlong => exact ⟨hburied, haccounted.prune hlong⟩
  | @refused word candidate depth mark candidates below memory memory' _ hentry =>
    have hdepth : depth = below.length := haligned.tower.placed.depth
    refine ⟨fun other failed hother => ?_, ?_⟩
    · exact hburied other failed (hentry.deadEnds_eq ▸ hother)
    · refine haccounted.skip.settle ?_
      exact hdepth ▸ hentry.hopeless hburied
  | opened _ hentry =>
    refine ⟨fun other failed hother => ?_, ?_⟩
    · exact hburied other failed (hentry.deadEnds_eq ▸ hother)
    · exact hentry.accounted haccounted.skip

theorem LoopState.sound {source : σ} {state : State σ}
    (h : LoopState problem start source state) : Sound problem start state := by
  induction h with
  | opening hentry => exact .opening hentry
  | move hbefore hmove ih => exact ih.move hbefore.aligned hmove

/-- A search without success has gone through everything. -/
theorem Exploration.hopeless {source : σ} {memory : Memory σ}
    (h : Exploration problem start source false memory) : Hopeless problem 0 start := by
  cases h with
  | refused hentry =>
    refine hentry.hopeless fun word depth hburied => ?_
    simp [Memory.initial] at hburied
  | loop hlast hending =>
    cases hending with
    | empty =>
      cases hlast.sound.accounted with
      | root h =>
        rcases h with h | h
        · cases h
        · exact h

end BoundedDerivation.Search
