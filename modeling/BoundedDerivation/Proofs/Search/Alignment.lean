import BoundedDerivation.Proofs.Search.Moves
import Mathlib.Data.List.Chain

/-! The stack and the trace of a search tell the same story. The frames form a tower whose words
lead from the start word to the one under trial, and the trace is the list of these words. -/
namespace BoundedDerivation.Search
open Randomness

/-- A frame with `height` frames below it. -/
structure Placed (problem : Problem) (frame : Frame) (height : Nat) : Prop where
  depth : frame.depth = height
  mark : frame.mark = height + 1
  shallow : height ≤ problem.maxDepth
  noResult : ¬problem.isResult frame.word
  candidates : ∀ candidate ∈ frame.candidates, problem.grammar.Step frame.word candidate

/-- The lowest frame holds the start word, every other one a successor of the word below it. -/
inductive Tower (problem : Problem) (start : Word) : List Frame → Prop
  | empty : Tower problem start []
  | bottom {frame : Frame} (word : frame.word = start) (placed : Placed problem frame 0) :
      Tower problem start [frame]
  | above {frame parent : Frame} {below : List Frame}
      (step : problem.grammar.Step parent.word frame.word)
      (short : frame.word.length ≤ problem.limit)
      (placed : Placed problem frame (below.length + 1))
      (rest : Tower problem start (parent :: below)) :
      Tower problem start (frame :: parent :: below)

/-- The words of a stack from the lowest frame to the highest one. -/
def path (stack : List Frame) : List Word := (stack.map Frame.word).reverse

@[simp] theorem path_cons (frame : Frame) (below : List Frame) :
    path (frame :: below) = path below ++ [frame.word] := by simp [path]

@[simp] theorem length_path (stack : List Frame) : (path stack).length = stack.length := by
  simp [path]

section
variable {problem : Problem} {start word candidate : Word} {depth mark : Nat}
  {frame : Frame} {below stack : List Frame} {candidates : List Word}

theorem Tower.placed (h : Tower problem start (frame :: below)) :
    Placed problem frame below.length := by
  cases h with
  | bottom _ hplaced => exact hplaced
  | above _ _ hplaced _ => exact hplaced

theorem Tower.pop (h : Tower problem start (frame :: below)) : Tower problem start below := by
  cases h with
  | bottom => exact .empty
  | above _ _ _ hrest => exact hrest

/-- Frames lose candidates as they are tried. -/
theorem Tower.skip (h : Tower problem start (⟨word, depth, candidate :: candidates, mark⟩ :: below)) :
    Tower problem start (⟨word, depth, candidates, mark⟩ :: below) := by
  have hplaced : Placed problem ⟨word, depth, candidates, mark⟩ below.length :=
    { h.placed with candidates := fun c hc => h.placed.candidates c (List.mem_cons_of_mem _ hc) }
  cases h with
  | bottom hword _ => exact .bottom hword hplaced
  | above hstep hshort _ hrest => exact .above hstep hshort hplaced hrest

theorem Tower.head?_path (h : Tower problem start (frame :: below)) :
    (path (frame :: below)).head? = some start := by
  induction below generalizing frame with
  | nil =>
    cases h with
    | bottom hword _ => simp [path, hword]
  | cons parent below ih =>
    rw [path_cons, List.head?_append, ih h.pop, Option.some_or]

theorem Tower.isChain_path (h : Tower problem start stack) :
    (path stack).IsChain problem.grammar.Step := by
  induction h with
  | empty => exact .nil
  | bottom => exact .singleton _
  | @above frame parent below hstep _ _ _ ih =>
    rw [path_cons]
    refine List.isChain_append.mpr ⟨ih, .singleton _, ?_⟩
    simpa using hstep

theorem Tower.short_path (h : Tower problem start stack) :
    ∀ w ∈ (path stack).tail, w.length ≤ problem.limit := by
  induction h with
  | empty => simp [path]
  | bottom => simp [path]
  | @above frame parent below _ hshort _ _ ih =>
    have hne : path (parent :: below) ≠ [] := by simp
    rw [path_cons, List.tail_append_of_ne_nil hne]
    exact List.forall_mem_append.mpr ⟨ih, List.forall_mem_singleton.mpr hshort⟩

theorem Tower.noResult_path (h : Tower problem start stack) :
    ∀ w ∈ path stack, ¬problem.isResult w := by
  induction h with
  | empty => simp [path]
  | bottom _ hplaced => simpa [path] using hplaced.noResult
  | above _ _ hplaced _ ih =>
    rw [path_cons]
    exact List.forall_mem_append.mpr ⟨ih, List.forall_mem_singleton.mpr hplaced.noResult⟩

end

variable {σ : Type} [Source σ] {problem : Problem} {start : Word}

/-- The trace is the path of the stack. Only the last of all frames leaves its word behind. -/
structure Aligned (problem : Problem) (start : Word) (state : State σ) : Prop where
  tower : Tower problem start state.stack
  trace : state.stack ≠ [] → state.memory.trace.toList = path state.stack

/-- A word that is opened at the end of the trace gets a frame that fits there. -/
theorem Entry.placed {word : Word} {depth : Nat} {memory memory' : Memory σ} {frame : Frame}
    (h : Entry problem word depth memory (.opened frame) memory')
    (hsize : memory.trace.toList.length = depth + 1) : Placed problem frame depth := by
  cases h with
  | @opened candidates source hresult hdepth _ hdrawn =>
    have hperm := (problem.grammar.rearranges_candidates word memory.source).perm hdrawn
    exact ⟨rfl, by simpa using hsize, hdepth, hresult, fun c hc => hperm.mem_iff.mp hc⟩

theorem Entry.word_eq {word : Word} {depth : Nat} {memory memory' : Memory σ} {frame : Frame}
    (h : Entry problem word depth memory (.opened frame) memory') : frame.word = word := by
  cases h
  rfl

theorem Entry.trace_eq {word : Word} {depth : Nat} {memory memory' : Memory σ} {outcome : Visit}
    (h : Entry problem word depth memory outcome memory') : memory'.trace = memory.trace := by
  cases h <;> rfl

theorem Aligned.opening {source : σ} {frame : Frame} {memory : Memory σ}
    (h : Entry problem start 0 (Memory.initial start source) (.opened frame) memory) :
    Aligned problem start ⟨[frame], memory⟩ := by
  refine ⟨.bottom h.word_eq (h.placed rfl), fun _ => ?_⟩
  simp [h.trace_eq, Memory.initial, path, h.word_eq]

theorem Aligned.move {state state' : State σ} (h : Aligned problem start state)
    (hmove : Move problem state state') : Aligned problem start state' := by
  have htower := h.tower
  cases hmove with
  | @exhausted word depth mark below memory =>
    have htrace := h.trace (by simp)
    have hmark := htower.placed.mark
    refine ⟨htower.pop, fun hbelow => ?_⟩
    dsimp only at hbelow hmark htrace ⊢
    rw [if_neg (by simpa using hbelow), Memory.trace_rollback, hmark]
    change List.take (below.length + 1 - 1) memory.trace.toList = _
    simp [htrace]
  | @pruned word candidate depth mark candidates below memory =>
    have htrace := h.trace (by simp)
    refine ⟨htower.skip, fun _ => ?_⟩
    dsimp only at htrace ⊢
    change memory.trace.toList = _
    rw [htrace, path_cons, path_cons]
  | @refused word candidate depth mark candidates below memory memory' _ hentry =>
    have htrace := h.trace (by simp)
    have hmark := htower.placed.mark
    refine ⟨htower.skip, fun _ => ?_⟩
    dsimp only at hmark htrace ⊢
    rw [Memory.trace_rollback, hentry.trace_eq, Memory.trace_push, htrace, hmark, path_cons,
      path_cons]
    exact List.take_left' (by simp)
  | @opened word candidate depth mark candidates below memory memory' child hshort hentry =>
    have htrace := h.trace (by simp)
    have hdepth := htower.placed.depth
    have hstep := htower.placed.candidates candidate List.mem_cons_self
    dsimp only at hdepth htrace hstep
    have hpushed : (memory.push candidate).trace.toList =
        path (⟨word, depth, candidates, mark⟩ :: below) ++ [candidate] := by simp [htrace]
    have hplaced := hentry.placed (by rw [hpushed]; simp [hdepth])
    rw [hdepth] at hplaced
    refine ⟨.above ?_ ?_ hplaced htower.skip, fun _ => ?_⟩
    · rwa [hentry.word_eq]
    · rwa [hentry.word_eq]
    · dsimp only
      rw [hentry.trace_eq, hpushed, path_cons child, hentry.word_eq]

theorem LoopState.aligned {source : σ} {state : State σ}
    (h : LoopState problem start source state) : Aligned problem start state := by
  induction h with
  | opening hentry => exact .opening hentry
  | move _ hmove ih => exact ih.move hmove

end BoundedDerivation.Search
