import BoundedDerivation.Proofs.Search.Outcome
import BoundedDerivation.Search.Plain

/-! Where the order of the candidates is a matter of the word alone, the search finds the very
derivation that the plain search finds, although it passes over buried words and keeps to the
tighter limit. At every moment the plain search would come to its answer by going on from the stack:
what the loop skips is hopeless, and the plain search finds nothing there. -/
namespace BoundedDerivation.Search
open Randomness

section
variable {problem : Problem} {order : Word → List Word} {depth : Nat} {word : Word}

theorem plainDescend_of_result (h : problem.isResult word) :
    plainDescend problem order depth word = some [word] := by
  rw [plainDescend, if_pos h]

theorem plainDescend_of_tooDeep (hresult : ¬problem.isResult word)
    (hdeep : problem.maxDepth < depth) : plainDescend problem order depth word = none := by
  rw [plainDescend, if_neg hresult, dif_pos hdeep]

/-- What the plain search makes of one candidate. -/
def tryPlain (problem : Problem) (order : Word → List Word) (depth : Nat) (candidate : Word) :
    Option (List Word) :=
  if problem.grammar.config.maxLength < candidate.length then none
  else plainDescend problem order depth candidate

theorem plainDescend_of_open (hresult : ¬problem.isResult word)
    (hshallow : depth ≤ problem.maxDepth) :
    plainDescend problem order depth word =
      ((order word).findSome? (tryPlain problem order (depth + 1))).map (word :: ·) := by
  rw [plainDescend, if_neg hresult, dif_neg (Nat.not_lt.mpr hshallow)]
  rfl

/-- What the plain search finds is a course. -/
theorem solvable_of_plainDescend
    (horder : ∀ word, ∀ candidate ∈ order word, problem.grammar.Step word candidate)
    {words : List Word} (h : plainDescend problem order depth word = some words) :
    Solvable problem problem.grammar.config.maxLength (problem.maxDepth + 1 - depth) word := by
  induction hsteps : problem.maxDepth + 1 - depth generalizing depth word words with
  | zero =>
    by_cases hresult : problem.isResult word
    · exact solvable_iff.mpr (.inl hresult)
    · rw [plainDescend_of_tooDeep hresult (by omega)] at h
      cases h
  | succ fewer ih =>
    by_cases hresult : problem.isResult word
    · exact solvable_iff.mpr (.inl hresult)
    · rw [plainDescend_of_open hresult (by omega)] at h
      obtain ⟨found, hfound, -⟩ := Option.map_eq_some_iff.mp h
      obtain ⟨candidate, hmem, hcandidate⟩ := List.exists_of_findSome?_eq_some hfound
      unfold tryPlain at hcandidate
      split at hcandidate
      · cases hcandidate
      · rename_i hshort
        have hnext := ih hcandidate (by omega)
        exact solvable_iff.mpr (.inr ⟨candidate, fewer, horder word candidate hmem,
          Nat.le_of_not_lt hshort, rfl, hnext⟩)

theorem tryPlain_of_hopeless (hg : problem.grammar.Valid)
    (horder : ∀ word, ∀ candidate ∈ order word, problem.grammar.Step word candidate)
    (h : Hopeless problem depth word) : tryPlain problem order depth word = none := by
  unfold tryPlain
  split
  · rfl
  · cases hwords : plainDescend problem order depth word with
    | none => rfl
    | some words =>
      have hsolvable := solvable_of_plainDescend horder hwords
      exact absurd ((solvable_limit_iff hg).mpr hsolvable) h

/-- Beyond the limit a word has outgrown its target, whatever the length bound may be. -/
theorem tryPlain_of_long (hg : problem.grammar.Valid)
    (horder : ∀ word, ∀ candidate ∈ order word, problem.grammar.Step word candidate)
    (h : problem.limit < word.length) : tryPlain problem order depth word = none := by
  unfold tryPlain
  split
  · rfl
  · rename_i hshort
    cases hwords : plainDescend problem order depth word with
    | none => rfl
    | some words =>
      obtain ⟨later, hcourse⟩ := solvable_of_plainDescend horder hwords
      cases ht : problem.target with
      | any =>
        simp only [Problem.limit, ht, Target.lengthLimit] at h
        omega
      | exactly length =>
        have hlength := hcourse.length_le_of_exactly hg ht word List.mem_cons_self
        simp only [Problem.limit, ht, Target.lengthLimit] at h
        omega

end

/-- What the plain search would find if it went on from a stack: below the highest word first. -/
def resume (problem : Problem) (order : Word → List Word) : List Frame → Option (List Word)
  | [] => none
  | frame :: below =>
    ((frame.candidates.findSome? (tryPlain problem order (below.length + 1))).map
      (path (frame :: below) ++ ·)).or (resume problem order below)

section
variable {problem : Problem} {order : Word → List Word} {word candidate : Word} {depth mark : Nat}
  {candidates : List Word} {below : List Frame}

/-- A candidate that the plain search gets nothing from may as well be skipped. -/
theorem resume_skip (h : tryPlain problem order (below.length + 1) candidate = none) :
    resume problem order (⟨word, depth, candidate :: candidates, mark⟩ :: below) =
      resume problem order (⟨word, depth, candidates, mark⟩ :: below) := by
  simp [resume, h]

/-- Opening a candidate in a frame of its own only puts off the candidates after it. -/
theorem resume_open {child : Frame} (hword : child.word = candidate)
    (hcandidates : child.candidates = order candidate)
    (hshort : candidate.length ≤ problem.grammar.config.maxLength)
    (hresult : ¬problem.isResult candidate) (hshallow : below.length + 1 ≤ problem.maxDepth) :
    resume problem order (⟨word, depth, candidate :: candidates, mark⟩ :: below) =
      resume problem order (child :: ⟨word, depth, candidates, mark⟩ :: below) := by
  have htry : tryPlain problem order (below.length + 1) candidate =
      ((order candidate).findSome? (tryPlain problem order (below.length + 1 + 1))).map
        (candidate :: ·) := by
    rw [tryPlain, if_neg (Nat.not_lt.mpr hshort), plainDescend_of_open hresult hshallow]
  simp only [resume, List.findSome?_cons, htry, hcandidates, List.length_cons]
  cases (order candidate).findSome? (tryPlain problem order (below.length + 1 + 1)) with
  | none => simp
  | some words => simp [hword]

/-- A candidate that is a result ends the plain search as well. -/
theorem resume_found (hshort : candidate.length ≤ problem.grammar.config.maxLength)
    (hresult : problem.isResult candidate) :
    resume problem order (⟨word, depth, candidate :: candidates, mark⟩ :: below) =
      some (path (⟨word, depth, candidates, mark⟩ :: below) ++ [candidate]) := by
  have htry : tryPlain problem order (below.length + 1) candidate = some [candidate] := by
    rw [tryPlain, if_neg (Nat.not_lt.mpr hshort), plainDescend_of_result hresult]
  simp [resume, htry]

end

variable {σ : Type} [Source σ] {problem : Problem} {order : Word → List Word} {start : Word}
  {source : σ}

/-- Whichever words have had their candidates drawn before, those of a word are drawn in an order that
the word alone determines. -/
def Orders (grammar : Grammar) (source : σ) (order : Word → List Word) : Prop :=
  ∀ word later, grammar.DrawsTo source later →
    (grammar.candidates word later).map Prod.fst = some (order word)

theorem Orders.eq_of_candidates {grammar : Grammar} {word : Word} {candidates : List Word}
    {later next : σ} (h : Orders grammar source order) (hlater : grammar.DrawsTo source later)
    (hdrawn : grammar.candidates word later = some (candidates, next)) :
    candidates = order word := by
  have hword := h word later hlater
  rw [hdrawn] at hword
  exact Option.some.inj hword

theorem Orders.isSome {grammar : Grammar} (h : Orders grammar source order) (word : Word)
    {later : σ} (hlater : grammar.DrawsTo source later) : (grammar.candidates word later).isSome := by
  have hword := congrArg Option.isSome (h word later hlater)
  simpa using hword

theorem Orders.step {grammar : Grammar} (h : Orders grammar source order) (word : Word) :
    ∀ candidate ∈ order word, grammar.Step word candidate := by
  obtain ⟨⟨candidates, next⟩, hdrawn⟩ := Option.isSome_iff_exists.mp (h.isSome word .refl)
  rw [← h.eq_of_candidates .refl hdrawn]
  intro candidate hc
  exact ((grammar.rearranges_candidates word source).perm hdrawn).mem_iff.mp hc

/-- What the plain search would find from the stack is the same after a turn as before it. -/
theorem LoopState.resume_move {state state' : State σ} (hg : problem.grammar.Valid)
    (ho : Orders problem.grammar source order) (h : LoopState problem start source state)
    (hmove : Move problem state state') :
    resume problem order state.stack = resume problem order state'.stack := by
  have htower := h.aligned.tower
  have hburied := h.sound.buried
  have hsource := h.drawsTo
  cases hmove with
  | exhausted => simp [resume]
  | pruned hlong => exact resume_skip (tryPlain_of_long hg ho.step hlong)
  | @refused word candidate depth mark candidates below memory memory' _ hentry =>
    have hdepth : depth = below.length := htower.placed.depth
    have hhopeless := hentry.hopeless hburied
    rw [hdepth] at hhopeless
    exact resume_skip (tryPlain_of_hopeless hg ho.step hhopeless)
  | @opened word candidate depth mark candidates below memory memory' child hshort hentry =>
    have hdepth : depth = below.length := htower.placed.depth
    have hmax := Nat.le_trans hshort (limit_le_maxLength problem)
    cases hentry with
    | opened hresult hshallow _ hdrawn =>
      rw [hdepth] at hshallow
      exact resume_open rfl (ho.eq_of_candidates hsource hdrawn) hmax hresult hshallow

theorem LoopState.plainDescend_eq {state : State σ} (hg : problem.grammar.Valid)
    (ho : Orders problem.grammar source order) (h : LoopState problem start source state) :
    plainDescend problem order 0 start = resume problem order state.stack := by
  induction h with
  | opening hentry =>
    cases hentry with
    | opened hresult hshallow _ hdrawn =>
      rw [plainDescend_of_open hresult hshallow, ← ho.eq_of_candidates .refl hdrawn]
      simp [resume, path]
  | move hbefore hmove ih => exact ih.trans (hbefore.resume_move hg ho hmove)

theorem Exploration.plainDescend_eq {success : Bool} {memory : Memory σ}
    (hg : problem.grammar.Valid) (ho : Orders problem.grammar source order)
    (h : Exploration problem start source success memory) :
    plainDescend problem order 0 start = if success then some memory.trace.toList else none := by
  cases h with
  | found hentry =>
    cases hentry with
    | found hresult => simp [plainDescend_of_result hresult, Memory.enter, Memory.initial]
  | refused hentry =>
    cases hentry with
    | tooDeep _ hdeep => omega
    | deadEnd _ hfailed => simp [Memory.hasFailed, Memory.initial] at hfailed
  | loop hlast hending =>
    rw [hlast.plainDescend_eq hg ho]
    cases hending with
    | empty => rfl
    | @found word candidate depth mark candidates below memory memory' hshort hentry =>
      have htrace := hlast.aligned.trace (by simp)
      have hmax := Nat.le_trans hshort (limit_le_maxLength problem)
      dsimp only at htrace
      cases hentry with
      | found hresult =>
        rw [resume_found hmax hresult, if_pos rfl]
        change _ = some (memory.push candidate).trace.toList
        rw [Memory.trace_push, htrace, path_cons, path_cons]

end BoundedDerivation.Search

namespace BoundedDerivation.Grammar
open Randomness Search

/-- The search is the plain search with less to do. If the order in which the candidates of a word
are tried depends on the word alone, both come to the same answer, word for word. -/
theorem derivation_eq_plainDerive {σ : Type} [Source σ] {grammar : Grammar} (hg : grammar.Valid)
    (start : Word) (target : Target) {source : σ} {order : Word → List Word}
    (ho : Orders grammar source order) :
    ∃ outcome, grammar.deriveFrom start target source = some outcome ∧
      outcome.derivation = plainDerive ⟨grammar, target⟩ order start := by
  have hsome := grammar.isSome_deriveFrom start target fun word _ => ho.isSome word
  obtain ⟨outcome, houtcome⟩ := Option.isSome_iff_exists.mp hsome
  obtain ⟨success, memory, hexploration, hderivation⟩ := exists_exploration houtcome
  refine ⟨outcome, houtcome, ?_⟩
  rw [hderivation, plainDerive, hexploration.plainDescend_eq hg ho]
  cases success <;> rfl

/-- A source that has nothing left but zeros always draws the same order. -/
theorem orders_zeros (grammar : Grammar) :
    Orders grammar (⟨[]⟩ : Draws) fun word =>
      ((grammar.candidates word (⟨[]⟩ : Draws)).map Prod.fst).getD [] := by
  intro word later hlater
  have hzeros : later = ⟨[]⟩ := by
    have hdraws := hlater.leadsTo
    clear hlater
    induction hdraws with
    | refl => rfl
    | tail _ hnext ih =>
      subst ih
      exact hnext.symm
  have hsome := grammar.canDraw_draws (⟨[]⟩ : Draws) word later hlater
  obtain ⟨drawn, hdrawn⟩ := Option.isSome_iff_exists.mp hsome
  simp [← hzeros, hdrawn]

/-- On the way to this derivation the search buries a word that it has tried too deep. -/
theorem plain_derivation_in_unitCycle :
    ∃ outcome, unitCycle.deriveFrom ['S'] (.exactly 2) (⟨[]⟩ : Draws) = some outcome ∧
      outcome.derivation =
        some ⟨[['S'], ['A', 'B'], ['A', 'A'], ['B', 'A'], ['b', 'A'], ['b', 'a']]⟩ := by
  obtain ⟨outcome, houtcome, hplain⟩ :=
    derivation_eq_plainDerive (by decide) ['S'] (.exactly 2) (orders_zeros unitCycle)
  refine ⟨outcome, houtcome, hplain.trans ?_⟩
  decide +kernel

end BoundedDerivation.Grammar
