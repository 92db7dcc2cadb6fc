import BoundedDerivation.Proofs.Strictness
import BoundedDerivation.Rules.InPlace

/-! What stores of rules hold after calls that change them in place. A call either takes its argument
in, as the last one, or leaves the store as it was. So a store shows exactly the arguments that have
been taken in, whatever calls have failed in between. -/
namespace BoundedDerivation

namespace StoreCall

variable {ι Store α : Type} {call : ι → StoreCall Store α}

/-- What comes of a call that makes a new store: an error leaves the old one. -/
def settle (store : Store) : Except GrammarError (α × Store) → Except GrammarError α × Store
  | .ok (value, next) => (.ok value, next)
  | .error error => (.error error, store)

/-- Verdicts that do not depend on the store are the same after any calls. -/
theorem log_runAll (verdict : ι → Except GrammarError α)
    (h : ∀ argument store, ((call argument).outcome store).1 = verdict argument)
    (arguments : List ι) (store : Store) :
    (runAll call arguments store).1 = arguments.map fun argument => (argument, verdict argument) := by
  induction arguments generalizing store with
  | nil => rfl
  | cons argument later ih =>
    exact congrArg₂ (· :: ·) (congrArg (argument, ·) (h argument store)) (ih _)

theorem accepted_cons (takes : Except GrammarError α → Bool) (argument : ι)
    (verdict : Except GrammarError α) (log : List (ι × Except GrammarError α)) :
    accepted takes ((argument, verdict) :: log) =
      (if takes verdict then [argument] else []) ++ accepted takes log := by
  unfold accepted
  cases htakes : takes verdict <;> simp [htakes]

/-- What every call preserves holds after all of them, of the store and what it has taken in. -/
theorem holds_runAll (Holds : Store → List ι → Prop) {takes : Except GrammarError α → Bool}
    (hstep : ∀ store before argument, Holds store before →
      Holds ((call argument).outcome store).2
        (before ++ if takes ((call argument).outcome store).1 then [argument] else []))
    (arguments : List ι) {store : Store} (h : Holds store []) :
    Holds (runAll call arguments store).2 (accepted takes (runAll call arguments store).1) := by
  -- The induction needs a store that has taken something in before.
  suffices ∀ before, Holds store before → Holds (runAll call arguments store).2
      (before ++ accepted takes (runAll call arguments store).1) from this [] h
  clear h
  induction arguments generalizing store with
  | nil => simp [runAll, accepted]
  | cons argument later ih =>
    intro before h
    have hlater := ih _ (hstep store before argument h)
    rw [List.append_assoc, ← accepted_cons] at hlater
    exact hlater

end StoreCall

open StoreCall

namespace ContextFreeRules

variable {store : ContextFreeRules} {rules : List Rule}

/-- A call that changes a store in place makes of it what one that returns a new store does. -/
theorem outcome_addInPlace (alphabet : Alphabet) (rule : Rule) (store : ContextFreeRules) :
    (addInPlace alphabet rule).outcome store =
      settle store ((store.add alphabet rule).map fun next => ((), next)) := by
  unfold add addInPlace
  cases check alphabet rule <;> rfl

/-- What a call says and what it leaves: a rule that is refused leaves no trace. -/
theorem outcome_addInPlace_eq (alphabet : Alphabet) (rule : Rule) (store : ContextFreeRules) :
    (addInPlace alphabet rule).outcome store =
      (check alphabet rule,
        if check alphabet rule = .ok () then store.insert rule else store) := by
  rw [outcome_addInPlace]
  unfold add
  cases check alphabet rule <;> rfl

/-- Both ways of finding a store empty agree, since it has no groups without right sides. -/
theorem isEmpty_contextFree (store : ContextFreeRules) :
    (RuleStore.contextFree store).isEmpty = store.isEmpty := by
  obtain ⟨groups, hascending, hinhabited⟩ := store
  cases groups with
  | nil => rfl
  | cons group rest =>
    have hgroup : group.2.length ≠ 0 := by simpa using hinhabited group List.mem_cons_self
    simp [RuleStore.isEmpty, RuleStore.size, size, groupsSize, isEmpty, hgroup]

/-- What a store shows of the rules that it has taken in, in this order. -/
structure Lists (store : ContextFreeRules) (rules : List Rule) : Prop where
  alternatives_eq : ∀ symbol,
    store.alternatives symbol = (rules.filter (·.left = symbol)).map Rule.right
  groups_ascending : (store.groups.map Prod.fst).Pairwise (· < ·)
  mem_groups : ∀ symbol, symbol ∈ store.groups.map Prod.fst ↔ ∃ rule ∈ rules, rule.left = symbol
  group_eq : ∀ group ∈ store.groups, group.2 ≠ [] ∧ group.2 = store.alternatives group.1
  size_eq : store.size = rules.length
  isEmpty_eq : store.isEmpty = (RuleStore.contextFree store).isEmpty

/-- The groups follow from the alternatives. -/
theorem Lists.of_alternatives
    (halternatives : ∀ symbol,
      store.alternatives symbol = (rules.filter (·.left = symbol)).map Rule.right)
    (hsize : store.size = rules.length) : store.Lists rules where
  alternatives_eq := halternatives
  groups_ascending := store.ascending
  mem_groups symbol := by
    have hne : store.alternatives symbol ≠ [] ↔ ∃ rule ∈ rules, rule.left = symbol := by
      rw [halternatives]
      simp
    rw [← hne, List.mem_map]
    constructor
    · rintro ⟨⟨_, rights⟩, hgroup, rfl⟩
      obtain ⟨hrights, heq⟩ := mem_groups_iff.mp hgroup
      rw [heq]
      exact hrights
    · intro hrights
      exact ⟨_, mem_groups_iff.mpr ⟨hrights, rfl⟩, rfl⟩
  group_eq group hgroup := by
    obtain ⟨hrights, heq⟩ := mem_groups_iff.mp hgroup
    exact ⟨hrights, heq.symm⟩
  size_eq := hsize
  isEmpty_eq := (isEmpty_contextFree store).symm

theorem lists_empty : empty.Lists [] := .of_alternatives (fun _ => rfl) rfl

/-- Whatever its symbol is, a rule that comes in is the last of its symbol and changes no other. -/
theorem Lists.insert (h : store.Lists rules) (rule : Rule) :
    (store.insert rule).Lists (rules ++ [rule]) := by
  refine .of_alternatives (fun symbol => ?_) ?_
  · rw [alternatives_insert, h.alternatives_eq, List.filter_append, List.map_append]
    by_cases hleft : rule.left = symbol
    · simp [hleft]
    · simp [hleft, Ne.symm hleft]
  · simp [h.size_eq]

/-- The step that every call takes, whether the rule is refused or not. -/
theorem Lists.addInPlace (h : store.Lists rules) (alphabet : Alphabet) (rule : Rule) :
    ((addInPlace alphabet rule).outcome store).2.Lists
      (rules ++ if check alphabet rule = .ok () then [rule] else []) := by
  rw [outcome_addInPlace_eq]
  by_cases hcheck : check alphabet rule = .ok ()
  · simpa only [if_pos hcheck] using h.insert rule
  · simpa only [if_neg hcheck, List.append_nil] using h

theorem log_addAllInPlace (additions : List (Alphabet × Rule)) :
    (addAllInPlace additions).1 =
      additions.map fun addition => (addition, check addition.1 addition.2) :=
  log_runAll (fun addition : Alphabet × Rule => check addition.1 addition.2)
    (fun addition store => by rw [outcome_addInPlace_eq]) additions empty

theorem lists_addAllInPlace (additions : List (Alphabet × Rule)) :
    (addAllInPlace additions).2.Lists
      ((accepted (· = .ok ()) (addAllInPlace additions).1).map Prod.snd) := by
  refine holds_runAll (fun (store : ContextFreeRules) taken => store.Lists (taken.map Prod.snd)) ?_
    additions lists_empty
  intro store before addition h
  have hstep := h.addInPlace addition.1 addition.2
  have hverdict := congrArg Prod.fst (outcome_addInPlace_eq addition.1 addition.2 store)
  rw [hverdict, List.map_append]
  by_cases hcheck : check addition.1 addition.2 = .ok () <;> simpa [hcheck] using hstep

end ContextFreeRules

/-- What a call says that is to append a matrix, whatever the store holds. -/
def Matrix.verdict (matrix : Matrix) : Except GrammarError Bool :=
  match matrix.rules.find? (·.right = []) with
  | some rule => .error (.emptyProduction rule.written)
  | none => .ok (matrix.rules ≠ [])

theorem Matrix.verdict_eq_ok_true_iff {matrix : Matrix} :
    matrix.verdict = .ok true ↔ matrix.rules ≠ [] ∧ ∀ rule ∈ matrix.rules, rule.right ≠ [] := by
  have hnone : matrix.rules.find? (·.right = []) = none ↔ ∀ rule ∈ matrix.rules, rule.right ≠ [] := by
    simp
  unfold verdict
  rw [← hnone]
  cases matrix.rules.find? (·.right = []) <;> simp

namespace MatrixRules

variable {store : MatrixRules} {matrices : List Matrix}

theorem outcome_pushInPlace (matrix : Matrix) (store : MatrixRules) :
    (pushInPlace matrix).outcome store =
      settle store ((store.push? matrix).map fun next => (next.isSome, next.getD store)) := by
  unfold push? pushInPlace
  by_cases hrules : matrix.rules = []
  · simp only [hrules, dif_pos]
    rfl
  · simp only [hrules, dif_neg, not_false_iff]
    cases matrix.rules.find? (·.right = []) <;> rfl

/-- What a call says and what it leaves: a matrix that is refused or passed over leaves no trace. -/
theorem outcome_pushInPlace_spec (matrix : Matrix) (store : MatrixRules) :
    ((pushInPlace matrix).outcome store).1 = matrix.verdict ∧
      ((pushInPlace matrix).outcome store).2.matrices =
        store.matrices ++ if matrix.verdict = .ok true then [matrix] else [] := by
  rw [outcome_pushInPlace]
  unfold push? Matrix.verdict
  by_cases hrules : matrix.rules = []
  · simp [hrules, Except.map, settle]
  · cases matrix.rules.find? (·.right = []) <;> simp [hrules, Except.map, settle]

/-- What a store shows of the matrices that it has taken in, in this order. -/
structure Lists (store : MatrixRules) (matrices : List Matrix) : Prop where
  matrices_eq : store.matrices = matrices
  inhabited : ∀ matrix ∈ store.matrices, matrix.rules ≠ []
  keepsSymbols : store.KeepsSymbols

theorem lists_empty : empty.Lists [] where
  matrices_eq := rfl
  inhabited := empty.inhabited
  keepsSymbols _ hmatrix := absurd hmatrix List.not_mem_nil

/-- The step that every call takes, whether the matrix is refused, passed over or appended. -/
theorem Lists.pushInPlace (h : store.Lists matrices) (matrix : Matrix) :
    ((pushInPlace matrix).outcome store).2.Lists
      (matrices ++ if matrix.verdict = .ok true then [matrix] else []) := by
  obtain ⟨-, hafter⟩ := outcome_pushInPlace_spec matrix store
  refine ⟨by rw [hafter, h.matrices_eq], MatrixRules.inhabited _, ?_⟩
  unfold KeepsSymbols
  rw [hafter]
  refine List.forall_mem_append.mpr ⟨h.keepsSymbols, fun m hm => ?_⟩
  split at hm
  · rename_i hverdict
    rw [List.mem_singleton.mp hm]
    exact (Matrix.verdict_eq_ok_true_iff.mp hverdict).2
  · cases hm

theorem log_pushAllInPlace (matrices : List Matrix) :
    (pushAllInPlace matrices).1 = matrices.map fun matrix => (matrix, matrix.verdict) :=
  log_runAll Matrix.verdict (fun matrix store => (outcome_pushInPlace_spec matrix store).1)
    matrices empty

theorem lists_pushAllInPlace (matrices : List Matrix) :
    (pushAllInPlace matrices).2.Lists (accepted (· = .ok true) (pushAllInPlace matrices).1) := by
  refine holds_runAll Lists ?_ matrices lists_empty
  intro store before matrix h
  have hstep := h.pushInPlace matrix
  obtain ⟨hverdict, -⟩ := outcome_pushInPlace_spec matrix store
  simpa [hverdict] using hstep

end MatrixRules

/-- Stores that are changed in place show exactly what they have taken in, in the order of the
calls and with repeats, however accepted and refused arguments alternate. A call that takes nothing
in leaves the store as it was. -/
theorem stores_list_accepted_arguments (additions : List (Alphabet × Rule)) (pushes : List Matrix) :
    (∃ log store, ContextFreeRules.addAllInPlace additions = (log, store) ∧
      log = additions.map (fun addition => (addition, ContextFreeRules.check addition.1 addition.2)) ∧
      store.Lists ((accepted (· = .ok ()) log).map Prod.snd)) ∧
    (∀ alphabet rule store verdict after,
      (ContextFreeRules.addInPlace alphabet rule).outcome store = (verdict, after) →
        verdict ≠ .ok () → after = store) ∧
    (∃ log store, MatrixRules.pushAllInPlace pushes = (log, store) ∧
      log = pushes.map (fun matrix => (matrix, matrix.verdict)) ∧
      store.Lists (accepted (· = .ok true) log)) ∧
    ∀ matrix store verdict after,
      (MatrixRules.pushInPlace matrix).outcome store = (verdict, after) →
        verdict ≠ .ok true → after = store := by
  refine ⟨⟨_, _, rfl, ContextFreeRules.log_addAllInPlace additions,
      ContextFreeRules.lists_addAllInPlace additions⟩, ?_,
    ⟨_, _, rfl, MatrixRules.log_pushAllInPlace pushes, MatrixRules.lists_pushAllInPlace pushes⟩, ?_⟩
  · intro alphabet rule store verdict after houtcome hne
    rw [ContextFreeRules.outcome_addInPlace_eq, Prod.mk.injEq] at houtcome
    obtain ⟨rfl, rfl⟩ := houtcome
    exact if_neg hne
  · intro matrix store verdict after houtcome hne
    obtain ⟨hverdict, hafter⟩ := MatrixRules.outcome_pushInPlace_spec matrix store
    rw [houtcome] at hverdict hafter
    subst hverdict
    rw [if_neg hne, List.append_nil] at hafter
    exact MatrixRules.ext_matrices hafter

end BoundedDerivation
