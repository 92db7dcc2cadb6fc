import BoundedDerivation.Search.Memory
import BoundedDerivation.Search.Profile

/-! The search itself: depth first, on an explicit stack, so that the depth bound may be as large
as one likes. One turn of the loop takes one candidate from the top frame or drops the frame. The
loop ends because each turn lowers the profile of untried candidates by depth. -/
namespace BoundedDerivation.Search
open Randomness

/-- A word whose candidates are being tried. -/
structure Frame where
  word : Word
  depth : Nat
  /-- The candidates still to be tried, next one first. -/
  candidates : List Word
  /-- The length of the trace while this word is its last one. -/
  mark : Nat

/-- What entering a word comes to. -/
inductive Visit where
  | found
  | refused
  | opened (frame : Frame)

variable {σ : Type} [Source σ]

/-- Enters a word: a result ends the search, a word beyond the depth bound or one that has failed
before is refused, and any other gets its candidates drawn. -/
def visit (problem : Problem) (word : Word) (depth : Nat) (memory : Memory σ) :
    Option (Visit × Memory σ) :=
  if problem.isResult word then some (.found, memory.enter)
  else if problem.maxDepth < depth then
    some (.refused, memory.enter.note (.depthReached word depth))
  else if memory.hasFailed word depth then some (.refused, memory.enter)
  else
    (memory.enter.expand problem word depth).map fun (candidates, memory) =>
      (.opened ⟨word, depth, candidates, memory.trace.size⟩, memory)

structure State (σ : Type) where
  /-- The open frames, the deepest one first. -/
  stack : List Frame
  memory : Memory σ

inductive Turn (σ : Type) where
  | ended (success : Bool) (memory : Memory σ)
  | going (state : State σ)

/-- One turn of the loop; none if the random source fails it. -/
def turn (problem : Problem) (state : State σ) : Option (Turn σ) :=
  match state with
  | ⟨[], memory⟩ => some (.ended false memory)
  | ⟨⟨word, depth, [], mark⟩ :: below, memory⟩ =>
    let memory := (memory.note (.exhausted word depth)).bury word depth
    let memory := if below.isEmpty then memory else memory.rollback (mark - 1)
    some (.going ⟨below, memory⟩)
  | ⟨⟨word, depth, candidate :: candidates, mark⟩ :: below, memory⟩ =>
    let stack := ⟨word, depth, candidates, mark⟩ :: below
    if problem.limit < candidate.length then
      some (.going ⟨stack, memory.note (.pruned candidate problem.limit)⟩)
    else
      match visit problem candidate (depth + 1) (memory.push candidate) with
      | none => none
      | some (.found, memory) => some (.ended true memory)
      | some (.refused, memory) => some (.going ⟨stack, memory.rollback mark⟩)
      | some (.opened frame, memory) => some (.going ⟨frame :: stack, memory⟩)

/-- The untried candidates and open frames of a stack at one depth, depths beyond the bound being
counted with it. -/
def pending (bound depth : Nat) : List Frame → Nat
  | [] => 0
  | frame :: below =>
    (if min frame.depth bound = depth then frame.candidates.length + 1 else 0) +
      pending bound depth below

def State.profile (problem : Problem) (state : State σ) : Profile problem.maxDepth :=
  ⟨fun depth => pending problem.maxDepth depth state.stack⟩

theorem visit_opened {problem : Problem} {word : Word} {depth : Nat} {memory memory' : Memory σ}
    {frame : Frame} (h : visit problem word depth memory = some (.opened frame, memory')) :
    frame.depth = depth ∧ depth ≤ problem.maxDepth := by
  unfold visit at h
  split at h
  · simp at h
  · split at h
    · simp at h
    · split at h
      · simp at h
      · rename_i hdepth _
        obtain ⟨⟨candidates, m⟩, -, h⟩ := Option.map_eq_some_iff.mp h
        simp only [Prod.mk.injEq, Visit.opened.injEq] at h
        exact ⟨by rw [← h.1], Nat.le_of_not_lt hdepth⟩

/-- Every turn lowers the profile at the depth of the top frame and changes none above it. -/
theorem turn_fewer {problem : Problem} {state state' : State σ}
    (h : turn problem state = some (.going state')) :
    Profile.Fewer problem.maxDepth (state'.profile problem).count
      (state.profile problem).count := by
  obtain ⟨stack, memory⟩ := state
  rcases stack with _ | ⟨⟨word, depth, candidates, mark⟩, below⟩
  · simp [turn] at h
  refine ⟨min depth problem.maxDepth, Nat.min_le_right .., ?_⟩
  rcases candidates with _ | ⟨candidate, candidates⟩
  · simp only [turn, Option.some.injEq, Turn.going.injEq] at h
    subst h
    refine ⟨by simp [State.profile, pending], fun e he => ?_⟩
    have : min depth problem.maxDepth ≠ e := by omega
    simp [State.profile, pending, this]
  · simp only [turn] at h
    split at h
    · simp only [Option.some.injEq, Turn.going.injEq] at h
      subst h
      refine ⟨by simp [State.profile, pending], fun e he => ?_⟩
      have : min depth problem.maxDepth ≠ e := by omega
      simp [State.profile, pending, this]
    · split at h
      · simp at h
      · simp at h
      · simp only [Option.some.injEq, Turn.going.injEq] at h
        subst h
        refine ⟨by simp [State.profile, pending], fun e he => ?_⟩
        have : min depth problem.maxDepth ≠ e := by omega
        simp [State.profile, pending, this]
      · rename_i frame m hv
        obtain ⟨hframe, hdepth⟩ := visit_opened hv
        simp only [Option.some.injEq, Turn.going.injEq] at h
        subst h
        have hne : ∀ e, e ≤ min depth problem.maxDepth →
            min frame.depth problem.maxDepth ≠ e := by omega
        refine ⟨by simp [State.profile, pending, hne], fun e he => ?_⟩
        have : min depth problem.maxDepth ≠ e := by omega
        simp [State.profile, pending, this, hne e (by omega)]

/-- The loop, until a result is found or the stack is empty. -/
def run (problem : Problem) (state : State σ) : Option (Bool × Memory σ) :=
  match _h : turn problem state with
  | none => none
  | some (.ended success memory) => some (success, memory)
  | some (.going state) => run problem state
termination_by state.profile problem
decreasing_by exact turn_fewer _h

/-- The whole search for a word at depth zero. -/
def explore (problem : Problem) (start : Word) (memory : Memory σ) : Option (Bool × Memory σ) :=
  match visit problem start 0 memory with
  | none => none
  | some (.found, memory) => some (true, memory)
  | some (.refused, memory) => some (false, memory)
  | some (.opened frame, memory) => run problem ⟨[frame], memory⟩

end BoundedDerivation.Search
