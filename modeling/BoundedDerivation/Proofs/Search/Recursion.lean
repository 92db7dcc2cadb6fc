import BoundedDerivation.Proofs.Search.Outcome
import BoundedDerivation.Search.Recursive

/-! The loop and the recursion are one search. A frame of the stack is a call that has not returned
yet: its candidates are the ones that the call has still to try, and the frames below it are what the
callers do once the call has failed. Both ways of taking a failed word off the trace come to the same,
since a call that fails leaves the trace as it has found it. -/
namespace BoundedDerivation.Search
open Randomness

section
variable {σ : Type} {outcome : Option (Bool × Memory σ)} {memory later : Memory σ}

/-- Goes on after a failure. There is nothing left to do after a success, nor without an outcome. -/
def afterFailure (outcome : Option (Bool × Memory σ))
    (next : Memory σ → Option (Bool × Memory σ)) : Option (Bool × Memory σ) :=
  match outcome with
  | none => none
  | some (true, memory) => some (true, memory)
  | some (false, memory) => next memory

@[simp] theorem afterFailure_failed (next : Memory σ → Option (Bool × Memory σ)) :
    afterFailure (some (false, memory)) next = next memory := rfl

theorem afterFailure_assoc (first second : Memory σ → Option (Bool × Memory σ)) :
    afterFailure (afterFailure outcome first) second =
      afterFailure outcome fun memory => afterFailure (first memory) second := by
  rcases outcome with _ | ⟨_ | _, memory⟩ <;> rfl

theorem afterFailure_congr {first second : Memory σ → Option (Bool × Memory σ)}
    (h : ∀ memory, outcome = some (false, memory) → first memory = second memory) :
    afterFailure outcome first = afterFailure outcome second := by
  rcases outcome with _ | ⟨_ | _, memory⟩
  · rfl
  · exact h memory rfl
  · rfl

theorem afterFailure_eq_failed_iff {next : Memory σ → Option (Bool × Memory σ)} :
    afterFailure outcome next = some (false, later) ↔
      ∃ memory, outcome = some (false, memory) ∧ next memory = some (false, later) := by
  rcases outcome with _ | ⟨_ | _, memory⟩ <;> simp [afterFailure]

theorem Memory.rollback_pred_size (memory : Memory σ) :
    memory.rollback (memory.trace.size - 1) = memory.pop := by
  have htrace : (memory.rollback (memory.trace.size - 1)).trace = memory.pop.trace := by
    apply Array.toList_inj.mp
    rw [trace_rollback, trace_pop, List.dropLast_eq_take, Array.length_toList]
  unfold Memory.rollback Memory.pop at htrace ⊢
  dsimp only at htrace
  rw [htrace]

theorem Memory.trace_pop_of_trace_push {word : Word} (h : later.trace = (memory.push word).trace) :
    later.pop.trace = memory.trace := by
  simp [Memory.pop, h, Memory.push]

/-- A word that has been put on the trace is taken off it by going back to the length before. -/
theorem Memory.rollback_of_trace_push {word : Word} (h : later.trace = (memory.push word).trace) :
    later.rollback memory.trace.size = later.pop := by
  rw [← rollback_pred_size, h]
  simp [Memory.push]

variable {enter : Word → Memory σ → Option (Bool × Memory σ)} {limit : Nat} {candidate : Word}
  {rest : List Word}

theorem tryEach_long (h : limit < candidate.length) :
    tryEach enter limit (candidate :: rest) memory =
      tryEach enter limit rest (memory.note (.pruned candidate limit)) := by
  rw [tryEach, if_pos h]
  rfl

theorem tryEach_short (h : candidate.length ≤ limit) :
    tryEach enter limit (candidate :: rest) memory =
      afterFailure (enter candidate (memory.push candidate)) fun memory =>
        tryEach enter limit rest memory.pop := by
  rw [tryEach, if_neg (Nat.not_lt.mpr h)]
  rfl

/-- Once all candidates of a word have failed, this is noted and the word is buried. -/
def leave (word : Word) (depth : Nat) (memory : Memory σ) : Memory σ :=
  (memory.note (.exhausted word depth)).bury word depth

@[simp] theorem trace_leave (word : Word) (depth : Nat) (memory : Memory σ) :
    (leave word depth memory).trace = memory.trace := rfl

/-- Whatever happens on the way, the trace is back to what it was when all candidates have failed. -/
theorem trace_of_tryEach
    (henter : ∀ {word memory later}, enter word memory = some (false, later) →
      later.trace = memory.trace)
    {candidates : List Word} (h : tryEach enter limit candidates memory = some (false, later)) :
    later.trace = memory.trace := by
  induction candidates generalizing memory with
  | nil =>
    cases h
    rfl
  | cons candidate rest ih =>
    rcases Nat.lt_or_ge limit candidate.length with hlong | hshort
    · rw [tryEach_long hlong] at h
      have hrest := ih h
      exact hrest
    · rw [tryEach_short hshort] at h
      obtain ⟨failed, hcall, hrest⟩ := afterFailure_eq_failed_iff.mp h
      rw [ih hrest, Memory.trace_pop_of_trace_push (henter hcall)]

end

variable {σ : Type} [Source σ] {problem : Problem} {word : Word} {depth : Nat}
  {memory later : Memory σ}

/-- A call enters its word as a turn of the loop does, and it returns from an opened word as soon as
the candidates are decided. -/
theorem descend_eq (problem : Problem) (depth : Nat) (word : Word) (memory : Memory σ) :
    descend problem depth word memory =
      match visit problem word depth memory with
      | none => none
      | some (.found, memory) => some (true, memory)
      | some (.refused, memory) => some (false, memory)
      | some (.opened frame, memory) =>
        afterFailure (tryEach (descend problem (depth + 1)) problem.limit frame.candidates memory)
          fun memory => some (false, leave word depth memory) := by
  rw [descend, visit]
  split
  · rfl
  · split
    · rfl
    · change (if memory.hasFailed word depth then _ else _) = _
      split
      · rfl
      · simp only [Memory.expand, Memory.enter]
        cases problem.grammar.candidates word memory.source with
        | none => rfl
        | some drawn => rfl

theorem trace_of_descend (h : descend problem depth word memory = some (false, later)) :
    later.trace = memory.trace := by
  induction hsteps : problem.maxDepth + 1 - depth using Nat.strong_induction_on
    generalizing depth word memory later with
  | h steps ih =>
  rw [descend_eq] at h
  cases hvisit : visit problem word depth memory with
  | none => simp [hvisit] at h
  | some entered =>
    obtain ⟨outcome, entered⟩ := entered
    have hentry := Entry.of_visit hvisit
    rw [hvisit] at h
    cases outcome with
    | found => cases h
    | refused =>
      cases h
      exact hentry.trace_eq
    | opened frame =>
      obtain ⟨failed, hcandidates, hleft⟩ := afterFailure_eq_failed_iff.mp h
      cases hleft
      obtain ⟨-, hshallow⟩ := visit_opened hvisit
      have hless : problem.maxDepth + 1 - (depth + 1) < steps := by omega
      have hcalls := trace_of_tryEach (fun hcall => ih _ hless hcall rfl) hcandidates
      rw [trace_leave, hcalls, hentry.trace_eq]

section
variable {candidate : Word} {candidates : List Word} {mark : Nat} {below : List Frame}

theorem run_exhausted :
    run problem ⟨⟨word, depth, [], mark⟩ :: below, memory⟩ =
      run problem ⟨below, if below.isEmpty then leave word depth memory
        else (leave word depth memory).rollback (mark - 1)⟩ := run_of_going rfl

theorem run_long (h : problem.limit < candidate.length) :
    run problem ⟨⟨word, depth, candidate :: candidates, mark⟩ :: below, memory⟩ =
      run problem ⟨⟨word, depth, candidates, mark⟩ :: below,
        memory.note (.pruned candidate problem.limit)⟩ := run_of_going (if_pos h)

theorem run_short (h : candidate.length ≤ problem.limit) :
    run problem ⟨⟨word, depth, candidate :: candidates, mark⟩ :: below, memory⟩ =
      match visit problem candidate (depth + 1) (memory.push candidate) with
      | none => none
      | some (.found, memory) => some (true, memory)
      | some (.refused, memory) =>
        run problem ⟨⟨word, depth, candidates, mark⟩ :: below, memory.rollback mark⟩
      | some (.opened child, memory) =>
        run problem ⟨child :: ⟨word, depth, candidates, mark⟩ :: below, memory⟩ := by
  rw [run, turn, if_neg (Nat.not_lt.mpr h)]
  rcases visit problem candidate (depth + 1) (memory.push candidate) with
    _ | ⟨_ | _ | child, memory⟩ <;> rfl

end

theorem Entry.mark_eq {frame : Frame} (h : Entry problem word depth memory (.opened frame) later) :
    frame.mark = later.trace.size := by
  cases h
  rfl

/-- Running the loop from a frame at this depth is trying the candidates of the frame by calls, and
running the loop from the frames below it once these calls have failed. -/
def RunsAsCall (σ : Type) [Source σ] (problem : Problem) (depth : Nat) : Prop :=
  ∀ (frame : Frame) (below : List Frame) (memory : Memory σ),
    frame.depth = depth → frame.mark = memory.trace.size →
      run problem ⟨frame :: below, memory⟩ =
        afterFailure (tryEach (descend problem (depth + 1)) problem.limit frame.candidates memory)
          fun memory => run problem ⟨below, if below.isEmpty then leave frame.word depth memory
            else (leave frame.word depth memory).pop⟩

/-- By induction on the candidates. One that is opened gets a frame of its own, one level deeper, and
this frame runs as the call for the candidate does. -/
theorem RunsAsCall.of_deeper
    (hdeeper : depth < problem.maxDepth → RunsAsCall σ problem (depth + 1)) :
    RunsAsCall σ problem depth := by
  rintro ⟨word, depth, candidates, mark⟩ below memory rfl hmark
  dsimp only at hdeeper hmark ⊢
  induction candidates generalizing memory with
  | nil =>
    have hpop := (leave word depth memory).rollback_pred_size
    rw [trace_leave, ← hmark] at hpop
    rw [run_exhausted, hpop]
    rfl
  | cons candidate rest ih =>
    rcases Nat.lt_or_ge problem.limit candidate.length with hlong | hshort
    · rw [run_long hlong, tryEach_long hlong]
      exact ih _ hmark
    · rw [run_short hshort, tryEach_short hshort, descend_eq]
      cases hvisit : visit problem candidate (depth + 1) (memory.push candidate) with
      | none => rfl
      | some entered =>
        obtain ⟨outcome, entered⟩ := entered
        have hentry := Entry.of_visit hvisit
        have hpushed := hentry.trace_eq
        cases outcome with
        | found => rfl
        | refused =>
          have hpopped := Memory.trace_pop_of_trace_push hpushed
          dsimp only
          rw [hmark, Memory.rollback_of_trace_push hpushed, ← hmark, afterFailure_failed]
          exact ih entered.pop (by rw [hpopped, hmark])
        | opened child =>
          obtain ⟨hdepth, hshallow⟩ := visit_opened hvisit
          dsimp only
          rw [hdeeper hshallow child _ entered hdepth hentry.mark_eq, afterFailure_assoc,
            afterFailure_assoc]
          apply afterFailure_congr
          intro failed hfailed
          have hkept := trace_of_tryEach trace_of_descend hfailed
          have hleft : (leave candidate (depth + 1) failed).trace =
              (memory.push candidate).trace := by
            rw [trace_leave, hkept, hpushed]
          have hpopped := Memory.trace_pop_of_trace_push hleft
          rw [hentry.word_eq, afterFailure_failed]
          exact ih (leave candidate (depth + 1) failed).pop (by rw [hpopped, hmark])

theorem runsAsCall (problem : Problem) (depth : Nat) : RunsAsCall σ problem depth := by
  induction hsteps : problem.maxDepth - depth generalizing depth with
  | zero => exact .of_deeper fun hless => by omega
  | succ steps ih => exact .of_deeper fun _ => ih (depth + 1) (by omega)

/-- The lowest frame runs as the call for the start word does. -/
theorem explore_eq_descend (problem : Problem) (start : Word) (memory : Memory σ) :
    explore problem start memory = descend problem 0 start memory := by
  rw [explore, descend_eq]
  cases hvisit : visit problem start 0 memory with
  | none => rfl
  | some entered =>
    obtain ⟨outcome, entered⟩ := entered
    cases outcome with
    | found | refused => rfl
    | opened frame =>
      have hentry := Entry.of_visit hvisit
      obtain ⟨hdepth, -⟩ := visit_opened hvisit
      dsimp only
      rw [runsAsCall problem 0 frame [] entered hdepth hentry.mark_eq, hentry.word_eq]
      apply afterFailure_congr
      intro failed _
      exact run_of_ended rfl

end BoundedDerivation.Search

namespace BoundedDerivation.Grammar
open Randomness Search

/-- From any source, the search on a stack is the recursive search: if one of them ends so does the
other, with the same verdict, and what it leaves behind is the same in everything, be it the trace,
the number of words visited or the source after its draws. Both end if the source can draw. -/
theorem loop_search_is_recursive_search (grammar : Grammar) (start : Word) (target : Target)
    {σ : Type} [Source σ] (source : σ) :
    explore ⟨grammar, target⟩ start (Memory.initial start source) =
        descend ⟨grammar, target⟩ 0 start (Memory.initial start source) ∧
      (grammar.CanDraw source → ∃ success memory,
        explore ⟨grammar, target⟩ start (Memory.initial start source) = some (success, memory) ∧
          descend ⟨grammar, target⟩ 0 start (Memory.initial start source) =
            some (success, memory)) := by
  have hsame := explore_eq_descend ⟨grammar, target⟩ start (Memory.initial start source)
  refine ⟨hsame, fun hdraw => ?_⟩
  have hsome := isSome_explore ⟨grammar, target⟩ start hdraw
  obtain ⟨⟨success, memory⟩, hends⟩ := Option.isSome_iff_exists.mp hsome
  exact ⟨success, memory, hends, hsame ▸ hends⟩

/-- Before they find a word, both searches run into the depth bound and bury a word that is still open
higher up. -/
theorem recursive_search_in_unitCycle :
    unitCycle.CanDraw (⟨[]⟩ : Draws) ∧ ∃ memory,
      explore ⟨unitCycle, .exactly 2⟩ ['S'] (Memory.initial ['S'] (⟨[]⟩ : Draws)) =
          some (true, memory) ∧
        descend ⟨unitCycle, .exactly 2⟩ 0 ['S'] (Memory.initial ['S'] (⟨[]⟩ : Draws)) =
          some (true, memory) := by
  have hdraw := unitCycle.canDraw_draws ⟨[]⟩
  obtain ⟨-, hends⟩ :=
    loop_search_is_recursive_search unitCycle ['S'] (.exactly 2) (⟨[]⟩ : Draws)
  obtain ⟨success, memory, hloop, hcalls⟩ := hends hdraw
  have hsolvable := (solvable_limit_iff (by decide)).mpr ⟨_, course_unitCycle⟩
  cases success with
  | false => exact absurd hsolvable (Exploration.of_explore hloop).hopeless
  | true => exact ⟨hdraw, memory, hloop, hcalls⟩

end BoundedDerivation.Grammar
