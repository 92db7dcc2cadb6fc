import BoundedDerivation.Proofs.Steps
import BoundedDerivation.Search.Memory
import Mathlib.Data.List.Chain

/-! Courses: what a search looks for, said without a search. A course leads from a word to a result
by steps of the grammar. Bounding its words by the target's own length costs no course that a valid
grammar has, since its words never get shorter. -/
namespace BoundedDerivation

/-- Along the steps of a valid grammar the last word is the longest one. -/
theorem Grammar.Valid.length_le_last {grammar : Grammar} (hg : grammar.Valid) {word : Word}
    {later : List Word} (h : (word :: later).IsChain grammar.Step) :
    ∀ w ∈ word :: later, w.length ≤ (later.getLastD word).length := by
  induction later generalizing word with
  | nil => simp
  | cons next later ih =>
    obtain ⟨hstep, hrest⟩ := List.isChain_cons_cons.mp h
    have hlater := ih hrest
    rw [List.getLastD_cons]
    intro w hw
    rcases List.mem_cons.mp hw with rfl | hw
    · exact Nat.le_trans (hg.length_le_of_step hstep) (hlater next List.mem_cons_self)
    · exact hlater w hw

namespace Search

/-- A result is made of terminals, and where a length is asked for it has this length. -/
structure Result (problem : Problem) (word : Word) : Prop where
  terminal : ∀ symbol ∈ word, symbol ∈ problem.grammar.alphabet.terminals
  fits : problem.target = .any ∨ problem.target = .exactly word.length

theorem isResult_iff {problem : Problem} {word : Word} :
    problem.isResult word ↔ Result problem word := by
  have hfits : problem.target.admits word ↔
      problem.target = .any ∨ problem.target = .exactly word.length := by
    cases problem.target with
    | any => simp [Target.admits]
    | exactly length =>
      simp only [Target.admits, beq_iff_eq, reduceCtorEq, false_or, Target.exactly.injEq]
      exact eq_comm
  rw [Problem.isResult, Bool.and_eq_true, hfits, Alphabet.isTerminalWord_iff]
  exact ⟨fun h => ⟨h.2, h.1⟩, fun h => ⟨h.fits, h.terminal⟩⟩

instance (problem : Problem) (word : Word) : Decidable (Result problem word) :=
  decidable_of_iff _ isResult_iff

/-- A word is within the limit of a search if it is no longer than the bound of the grammar and the
length asked for. -/
theorem le_limit_iff {problem : Problem} {length : Nat} :
    length ≤ problem.limit ↔ length ≤ problem.grammar.config.maxLength ∧
      ∀ wanted, problem.target = .exactly wanted → length ≤ wanted := by
  unfold Problem.limit
  cases problem.target with
  | any => simp [Target.lengthLimit]
  | exactly wanted =>
    rw [Target.lengthLimit, Nat.le_min, and_comm]
    simp

/-- The words `later` lead from `start` to a result, in at most `steps` steps and without a word
longer than `bound`. The start itself may have any length. -/
structure Course (problem : Problem) (bound steps : Nat) (start : Word) (later : List Word) :
    Prop where
  follows : (start :: later).IsChain problem.grammar.Step
  short : ∀ word ∈ later, word.length ≤ bound
  few : later.length ≤ steps
  ends : Result problem (later.getLastD start)

/-- Some course leads from the word to a result. -/
def Solvable (problem : Problem) (bound steps : Nat) (word : Word) : Prop :=
  ∃ later, Course problem bound steps word later

section
variable {problem : Problem} {bound steps : Nat} {word next : Word} {later : List Word}

theorem course_nil_iff : Course problem bound steps word [] ↔ problem.isResult word := by
  rw [isResult_iff]
  constructor
  · intro h
    exact h.ends
  · intro h
    exact ⟨.singleton word, by simp, Nat.zero_le steps, h⟩

theorem course_cons_iff :
    Course problem bound steps word (next :: later) ↔
      problem.grammar.Step word next ∧ next.length ≤ bound ∧
        ∃ fewer, steps = fewer + 1 ∧ Course problem bound fewer next later := by
  constructor
  · rintro ⟨hfollows, hshort, hfew, hends⟩
    obtain ⟨hstep, hrest⟩ := List.isChain_cons_cons.mp hfollows
    obtain ⟨hnext, hlater⟩ := List.forall_mem_cons.mp hshort
    rw [List.getLastD_cons] at hends
    rw [List.length_cons] at hfew
    exact ⟨hstep, hnext, steps - 1, by omega, hrest, hlater, by omega, hends⟩
  · rintro ⟨hstep, hnext, fewer, rfl, hfollows, hshort, hfew, hends⟩
    refine ⟨.cons_cons hstep hfollows, List.forall_mem_cons.mpr ⟨hnext, hshort⟩, ?_, ?_⟩
    · simpa using hfew
    · rwa [List.getLastD_cons]

/-- A word is solvable if it is a result or has a successor that is solvable in one step less. -/
theorem solvable_iff :
    Solvable problem bound steps word ↔
      problem.isResult word ∨ ∃ next fewer, problem.grammar.Step word next ∧
        next.length ≤ bound ∧ steps = fewer + 1 ∧ Solvable problem bound fewer next := by
  constructor
  · rintro ⟨_ | ⟨next, later⟩, h⟩
    · exact .inl (course_nil_iff.mp h)
    · obtain ⟨hstep, hnext, fewer, hfewer, hlater⟩ := course_cons_iff.mp h
      exact .inr ⟨next, fewer, hstep, hnext, hfewer, later, hlater⟩
  · rintro (h | ⟨next, fewer, hstep, hnext, hfewer, later, hlater⟩)
    · exact ⟨[], course_nil_iff.mpr h⟩
    · exact ⟨next :: later, course_cons_iff.mpr ⟨hstep, hnext, fewer, hfewer, hlater⟩⟩

theorem Course.mono {bound' steps' : Nat} (h : Course problem bound steps word later)
    (hbound : bound ≤ bound') (hsteps : steps ≤ steps') :
    Course problem bound' steps' word later :=
  ⟨h.follows, fun w hw => Nat.le_trans (h.short w hw) hbound, Nat.le_trans h.few hsteps, h.ends⟩

/-- A result is at least as long as every word on the way to it. -/
theorem Course.length_le_of_exactly (hg : problem.grammar.Valid)
    (h : Course problem bound steps word later) {length : Nat}
    (ht : problem.target = .exactly length) : ∀ w ∈ word :: later, w.length ≤ length := by
  have hlast : (later.getLastD word).length = length := by
    simpa [ht, eq_comm] using h.ends.fits
  exact hlast ▸ hg.length_le_last h.follows

end

section
variable {problem : Problem} {steps : Nat} {word : Word} {later : List Word}

theorem limit_le_maxLength (problem : Problem) :
    problem.limit ≤ problem.grammar.config.maxLength :=
  (le_limit_iff.mp (Nat.le_refl _)).1

/-- The limit of a search cuts off no course that the length bound of the grammar admits. -/
theorem course_limit_iff (hg : problem.grammar.Valid) :
    Course problem problem.limit steps word later ↔
      Course problem problem.grammar.config.maxLength steps word later := by
  constructor
  · intro h
    exact h.mono (limit_le_maxLength problem) (Nat.le_refl _)
  · intro h
    refine ⟨h.follows, fun w hw => le_limit_iff.mpr ⟨h.short w hw, fun wanted ht => ?_⟩, h.few, h.ends⟩
    exact h.length_le_of_exactly hg ht w (List.mem_cons_of_mem word hw)

theorem solvable_limit_iff (hg : problem.grammar.Valid) :
    Solvable problem problem.limit steps word ↔
      Solvable problem problem.grammar.config.maxLength steps word :=
  exists_congr fun _ => course_limit_iff hg

end
end Search
end BoundedDerivation
