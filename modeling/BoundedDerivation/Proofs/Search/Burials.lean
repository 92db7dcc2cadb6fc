import BoundedDerivation.Proofs.Search.Expansions
import BoundedDerivation.Proofs.Search.Guidance
import Mathlib.Order.Bounds.Basic

/-! Where the dead ends lie. A word that is open has not failed at its depth or above it, so when it
fails it is buried higher than it has lain before. Each word therefore lies where it has failed last,
and that is the least of the depths at which it has failed. -/
namespace BoundedDerivation.Search
open Randomness

/-- The memory that a turn leaves behind. -/
def Turn.memory {σ : Type} : Turn σ → Memory σ
  | ended _ memory => memory
  | going state => state.memory

/-- The depths at which the candidates of a word have run out, the latest one first. -/
def Memory.failures {σ : Type} (memory : Memory σ) (word : Word) : List Nat :=
  (memory.exhaustions.filter (·.1 = word)).map Prod.snd

/-- A word has failed at a depth if its candidates have run out there, or if it was not to have any
because the depth is beyond the bound. -/
def Memory.FailedAt {σ : Type} (memory : Memory σ) (word : Word) (depth : Nat) : Prop :=
  .exhausted word depth ∈ memory.history ∨ .depthReached word depth ∈ memory.history

section
variable {σ : Type} {problem : Problem} {memory memory' : Memory σ} {word other : Word}
  {depth failed : Nat}

theorem mem_failures_iff :
    depth ∈ memory.failures word ↔ .exhausted word depth ∈ memory.history := by
  have hplace : ∀ note, Note.exhaustion? note = some (word, depth) ↔ note = .exhausted word depth := by
    intro note
    cases note <;> simp [Note.exhaustion?]
  simp [Memory.failures, Memory.exhaustions, hplace]

theorem failures_of_cons (h : memory'.exhaustions = (word, depth) :: memory.exhaustions)
    (other : Word) :
    memory'.failures other =
      if word = other then depth :: memory.failures other else memory.failures other := by
  unfold Memory.failures
  rw [h, List.filter_cons]
  by_cases hother : word = other <;> simp [hother]

/-- A list that gets larger starts with its least member. -/
theorem head?_eq_some_iff_of_rising {depths : List Nat} (h : depths.Pairwise (· < ·)) :
    depths.head? = some depth ↔ depth ∈ depths ∧ ∀ failed ∈ depths, depth ≤ failed := by
  cases depths with
  | nil => simp
  | cons first rest =>
    obtain ⟨hfirst, -⟩ := List.pairwise_cons.mp h
    rw [List.head?_cons, Option.some.injEq]
    constructor
    · rintro rfl
      refine ⟨List.mem_cons_self, List.forall_mem_cons.mpr ⟨Nat.le_refl _, fun failed hfailed => ?_⟩⟩
      exact Nat.le_of_lt (hfirst failed hfailed)
    · rintro ⟨hmem, hleast⟩
      rcases List.mem_cons.mp hmem with rfl | hrest
      · rfl
      · have hlt := hfirst depth hrest
        have hle := hleast first List.mem_cons_self
        omega

/-- A word lies where it has failed last, and each time it fails it does so less deep than before.
Beyond the depth bound no word gets as far as being buried. -/
structure Layered (problem : Problem) (memory : Memory σ) : Prop where
  latest : ∀ word, memory.deadEnds[word]? = (memory.failures word).head?
  rising : ∀ word, (memory.failures word).Pairwise (· < ·)
  shallow : ∀ word depth, .exhausted word depth ∈ memory.history → depth ≤ problem.maxDepth
  deep : ∀ word depth, .depthReached word depth ∈ memory.history → problem.maxDepth < depth

theorem Layered.of_eq (h : Layered problem memory) (hdeadEnds : memory'.deadEnds = memory.deadEnds)
    (hhistory : memory'.history = memory.history) : Layered problem memory' := by
  have hfailures : ∀ word, memory'.failures word = memory.failures word := fun word => by
    rw [Memory.failures, Memory.failures, Memory.exhaustions, Memory.exhaustions, hhistory]
  refine ⟨fun word => ?_, fun word => ?_, hhistory ▸ h.shallow, hhistory ▸ h.deep⟩
  · rw [hdeadEnds, hfailures]
    exact h.latest word
  · rw [hfailures]
    exact h.rising word

theorem layered_initial (problem : Problem) (start : Word) (source : σ) :
    Layered problem (Memory.initial start source) := by
  have hnone : ∀ word, (Memory.initial start source).failures word = [] := fun _ => rfl
  refine ⟨fun word => ?_, fun word => ?_, by simp [Memory.initial], by simp [Memory.initial]⟩
  · rw [hnone]
    simp [Memory.initial]
  · rw [hnone]
    exact .nil

/-- The buried words are those that have failed, each at the least of its depths. -/
theorem Layered.buried_iff_mem_failures (h : Layered problem memory) :
    memory.deadEnds[word]? = some depth ↔
      depth ∈ memory.failures word ∧ ∀ failed ∈ memory.failures word, depth ≤ failed := by
  rw [h.latest, head?_eq_some_iff_of_rising (h.rising word)]

/-- The earlier failures of a word lie deeper than a place where it is not buried yet. -/
theorem Layered.lt_of_fresh (h : Layered problem memory) (hfresh : ¬memory.hasFailed word depth)
    (hfailed : failed ∈ memory.failures word) : depth < failed := by
  obtain ⟨last, hlast⟩ : ∃ last, memory.deadEnds[word]? = some last := by
    rw [h.latest, ← Option.isSome_iff_exists, List.isSome_head?]
    exact List.ne_nil_of_mem hfailed
  have hle := (h.buried_iff_mem_failures.mp hlast).2 failed hfailed
  by_contra hge
  exact hfresh (hasFailed_iff.mpr ⟨last, by omega, hlast⟩)

/-- Only failures matter, and those beyond the depth bound have nothing to do with the dead ends. -/
theorem Layered.note {note : Note} (h : Layered problem memory) (hnone : note.exhaustion? = none)
    (hdeep : ∀ word depth, note = .depthReached word depth → problem.maxDepth < depth) :
    Layered problem (memory.note note) := by
  have hexhaustions : (memory.note note).exhaustions = memory.exhaustions :=
    List.filterMap_cons_none hnone
  have hfailures : ∀ word, (memory.note note).failures word = memory.failures word := fun word => by
    rw [Memory.failures, Memory.failures, hexhaustions]
  refine ⟨fun word => ?_, fun word => ?_, fun word depth hnoted => ?_, fun word depth hnoted => ?_⟩
  · rw [hfailures]
    exact h.latest word
  · rw [hfailures]
    exact h.rising word
  · rcases List.mem_cons.mp hnoted with hnew | hnoted
    · simp [← hnew, Note.exhaustion?] at hnone
    · exact h.shallow word depth hnoted
  · rcases List.mem_cons.mp hnoted with hnew | hnoted
    · exact hdeep word depth hnew.symm
    · exact h.deep word depth hnoted

theorem Layered.bury (h : Layered problem memory) (hfresh : ¬memory.hasFailed word depth)
    (hshallow : depth ≤ problem.maxDepth) :
    Layered problem ((memory.note (.exhausted word depth)).bury word depth) := by
  have hfailures : ∀ other, ((memory.note (.exhausted word depth)).bury word depth).failures other =
      if word = other then depth :: memory.failures other else memory.failures other :=
    failures_of_cons rfl
  refine ⟨fun other => ?_, fun other => ?_, fun other failed hnoted => ?_, fun other failed hnoted => ?_⟩
  · rw [hfailures, getElem?_bury]
    split
    · rfl
    · exact h.latest other
  · rw [hfailures]
    split
    · rename_i hother
      subst hother
      exact List.pairwise_cons.mpr ⟨fun _ => h.lt_of_fresh hfresh, h.rising word⟩
    · exact h.rising other
  · rcases List.mem_cons.mp hnoted with hnew | hnoted
    · cases hnew
      exact hshallow
    · exact h.shallow other failed hnoted
  · rcases List.mem_cons.mp hnoted with hnew | hnoted
    · cases hnew
    · exact h.deep other failed hnoted

/-- The least failure within the depth bound is where a word lies. -/
theorem Layered.buried_iff_isLeast (h : Layered problem memory) :
    memory.deadEnds[word]? = some depth ↔
      depth ≤ problem.maxDepth ∧ IsLeast {failed | memory.FailedAt word failed} depth := by
  rw [h.buried_iff_mem_failures]
  constructor
  · rintro ⟨hmem, hleast⟩
    have hnoted := mem_failures_iff.mp hmem
    have hshallow := h.shallow word depth hnoted
    refine ⟨hshallow, .inl hnoted, ?_⟩
    rintro failed (hfailed | hreached)
    · exact hleast failed (mem_failures_iff.mpr hfailed)
    · have hdeep := h.deep word failed hreached
      omega
  · rintro ⟨hshallow, hfailed | hreached, hleast⟩
    · refine ⟨mem_failures_iff.mpr hfailed, fun failed hmem => ?_⟩
      exact hleast (.inl (mem_failures_iff.mp hmem))
    · have hdeep := h.deep word depth hreached
      omega

end

variable {σ : Type} [Source σ] {problem : Problem} {start : Word}

/-- Entering a word fails it only beyond the depth bound. -/
theorem Entry.layered {word : Word} {depth : Nat} {memory memory' : Memory σ} {outcome : Visit}
    (h : Entry problem word depth memory outcome memory') (hlayered : Layered problem memory) :
    Layered problem memory' := by
  have hentered : Layered problem memory.enter := hlayered.of_eq rfl rfl
  cases h with
  | found | deadEnd => exact hentered
  | tooDeep _ hdeep =>
    refine hentered.note rfl ?_
    rintro _ _ ⟨⟩
    exact hdeep
  | @opened candidates source =>
    have hnoted : Layered problem (memory.enter.note (.expanded word depth)) :=
      hentered.note rfl nofun
    exact hnoted.of_eq rfl rfl

theorem LoopState.layered {source : σ} {state : State σ}
    (h : LoopState problem start source state) : Layered problem state.memory := by
  induction h with
  | opening hentry => exact hentry.layered (layered_initial problem start source)
  | @move state state' hbefore hmove ih =>
    cases hmove with
    | @exhausted word depth mark below memory =>
      have hfresh := hbefore.unrepeated.fresh (word, depth) List.mem_cons_self
      have hplaced := hbefore.aligned.tower.placed
      have hdepth : depth = below.length := hplaced.depth
      have hburied := ih.bury hfresh (hdepth ▸ hplaced.shallow)
      dsimp only
      split
      · exact hburied
      · exact hburied.of_eq rfl rfl
    | pruned => exact ih.note rfl nofun
    | @refused word candidate depth mark candidates below memory memory' _ hentry =>
      have hpushed : Layered problem (memory.push candidate) := ih.of_eq rfl rfl
      exact (hentry.layered hpushed).of_eq rfl rfl
    | @opened word candidate depth mark candidates below memory memory' child _ hentry =>
      have hpushed : Layered problem (memory.push candidate) := ih.of_eq rfl rfl
      exact hentry.layered hpushed

/-- Only a frame that is dropped changes the dead ends. -/
theorem Move.deadEnds_eq {state state' : State σ} (h : Move problem state state') :
    state'.memory.deadEnds = state.memory.deadEnds ∨
      ∃ place ∈ places state.stack,
        state'.memory.deadEnds = state.memory.deadEnds.insert place.1 place.2 := by
  cases h with
  | @exhausted word depth mark below memory =>
    refine .inr ⟨(word, depth), List.mem_cons_self, ?_⟩
    dsimp only
    split <;> rfl
  | pruned => exact .inl rfl
  | refused _ hentry | opened _ hentry => exact .inl hentry.deadEnds_eq

theorem Ending.deadEnds_eq {state : State σ} {success : Bool} {memory : Memory σ}
    (h : Ending problem state success memory) : memory.deadEnds = state.memory.deadEnds := by
  cases h with
  | empty => rfl
  | found _ hentry => exact hentry.deadEnds_eq

/-- The dead ends at every turn of the loop. No course leads on from a word at the depth where it is
buried, or with fewer steps; a turn that buries a word puts it higher than it has lain before; and so
a word lies at the least depth at which it has failed. -/
theorem dead_ends_lie_at_least_failures {source : σ} {state : State σ}
    (h : Iteration problem start source state) :
    (∀ word depth, state.memory.deadEnds[word]? = some depth →
      depth ≤ problem.maxDepth ∧ ¬Result problem word ∧
        ∀ later, ¬Course problem problem.limit (problem.maxDepth + 1 - depth) word later) ∧
    (∀ outcome, turn problem state = some outcome →
      outcome.memory.deadEnds = state.memory.deadEnds ∨
        ∃ word depth, outcome.memory.deadEnds = state.memory.deadEnds.insert word depth ∧
          ∀ before, state.memory.deadEnds[word]? = some before → depth < before) ∧
    ∀ word depth, state.memory.deadEnds[word]? = some depth ↔
      depth ≤ problem.maxDepth ∧ IsLeast {failed | state.memory.FailedAt word failed} depth := by
  have hloop := h.loopState
  have hlayered := hloop.layered
  refine ⟨fun word depth hburied => ?_, fun outcome hturn => ?_, fun word depth => ?_⟩
  · have hhopeless := hloop.sound.buried word depth hburied
    have hshallow := (hlayered.buried_iff_isLeast.mp hburied).1
    refine ⟨hshallow, fun hresult => ?_, fun later hcourse => hhopeless ⟨later, hcourse⟩⟩
    exact hhopeless ⟨[], course_nil_iff.mpr (isResult_iff.mpr hresult)⟩
  · cases outcome with
    | ended success memory => exact .inl (Ending.of_turn hturn).deadEnds_eq
    | going next =>
      refine (Move.of_turn hturn).deadEnds_eq.imp id ?_
      rintro ⟨place, hplace, hburied⟩
      refine ⟨place.1, place.2, hburied, fun before hbefore => ?_⟩
      by_contra hle
      refine hloop.unrepeated.fresh place hplace (hasFailed_iff.mpr ⟨before, ?_, hbefore⟩)
      exact Nat.le_of_not_lt hle
  · exact hlayered.buried_iff_isLeast

/-- Two nonterminals that turn into each other and into nothing else. -/
def closedCycle : Problem where
  grammar :=
    { alphabet := ⟨.ofList ['S', 'A'], .ofList ['a']⟩
      start := 'S'
      rules := .contextFree <| [⟨'S', ['A']⟩, ⟨'A', ['S']⟩].foldl .insert .empty
      config := { maxDepth := 2, maxLength := 1 } }
  target := .any

/-- The start word comes up again below itself. There it fails first, and it is buried a second time,
two steps higher up, when all is over. -/
theorem dead_ends_of_closedCycle :
    ∃ state, Iteration closedCycle ['S'] (⟨[]⟩ : Draws) state ∧ state.stack = [] ∧
      state.memory.FailedAt ['S'] 2 ∧ state.memory.deadEnds[(['S'] : Word)]? = some 0 ∧
      ∀ later, ¬Course closedCycle 1 3 ['S'] later := by
  have hS : closedCycle.grammar.candidates ['S'] (⟨[]⟩ : Draws) = some ([['A']], ⟨[]⟩) := by decide
  have hA : closedCycle.grammar.candidates ['A'] (⟨[]⟩ : Draws) = some ([['S']], ⟨[]⟩) := by decide
  have hvisit := @visit_of_open Draws _ closedCycle (Memory.initial ['S'] ⟨[]⟩) ['S'] 0 _ _ (by decide)
    (by decide) (not_hasFailed_of_empty rfl) hS
  have hfirst : Iteration closedCycle ['S'] (⟨[]⟩ : Draws) _ := ⟨_, _, hvisit, .refl⟩
  have hsecond := hfirst.later
    (.single (turn_of_open (by decide) (by decide) (by decide) (not_hasFailed_of_empty rfl) hA))
  have hthird := hsecond.later
    (.single (turn_of_open (by decide) (by decide) (by decide) (not_hasFailed_of_empty rfl) hS))
  -- The second `A` would lie too deep, and then no frame has a candidate left.
  obtain ⟨state, hstate, hstack, hhistory⟩ :
      ∃ state, Iteration closedCycle ['S'] (⟨[]⟩ : Draws) state ∧ state.stack = [] ∧
        state.memory.history = [.exhausted ['S'] 0, .exhausted ['A'] 1, .exhausted ['S'] 2,
          .depthReached ['A'] 3, .expanded ['S'] 2, .expanded ['A'] 1, .expanded ['S'] 0] :=
    ⟨_, hthird.later (.head rfl (.head rfl (.head rfl (.single rfl)))), rfl, rfl⟩
  obtain ⟨hsound, -, hleast⟩ := dead_ends_lie_at_least_failures hstate
  have hburied : state.memory.deadEnds[(['S'] : Word)]? = some 0 := by
    refine (hleast ['S'] 0).mpr ⟨Nat.zero_le _, ?_, fun _ _ => Nat.zero_le _⟩
    exact .inl (by simp [hhistory])
  exact ⟨state, hstate, hstack, .inl (by simp [hhistory]), hburied, (hsound ['S'] 0 hburied).2.2⟩

end BoundedDerivation.Search
