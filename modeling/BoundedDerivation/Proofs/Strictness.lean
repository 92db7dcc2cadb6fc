import BoundedDerivation.Proofs.Rebuilding

/-! Strict and lenient validation of matrices. Both look for the same flaws in the same order.
Lenient validation reports all of them and goes on, strict validation refuses the first one. One
thing neither of them lets pass, a right side without symbols, has been kept out of the store
before. -/
namespace BoundedDerivation

/-- The error that a flaw becomes if it is not let pass. -/
def MatrixWarning.refusal : MatrixWarning → GrammarError
  | undeclaredLeft rule => .undeclaredNonterminal rule.left
  | undeclaredRight symbol rule => .undeclaredSymbol symbol rule

/-- The flaws of one rule: a left symbol that is no nonterminal, then the first symbol of the right
side that is not declared. -/
def Alphabet.flaws (alphabet : Alphabet) (rule : Rule) : List MatrixWarning :=
  (if rule.left ∈ alphabet.nonterminals then [] else [.undeclaredLeft rule]) ++
    ((rule.right.find? fun symbol =>
      symbol ∉ alphabet.nonterminals ∧ symbol ∉ alphabet.terminals).map
        (MatrixWarning.undeclaredRight · rule)).toList

namespace MatrixRules

/-- The flaws of all rules, by matrix and in the order of the rules. -/
def flaws (store : MatrixRules) (alphabet : Alphabet) : List MatrixWarning :=
  store.matrices.flatMap fun matrix => matrix.rules.flatMap alphabet.flaws

/-- Matrices are pushed one after the other, and one that is refused leaves the store as it was. -/
def pushAll (store : MatrixRules) : List Matrix → MatrixRules
  | [] => store
  | matrix :: later =>
    match store.push matrix with
    | .ok next => next.pushAll later
    | .error _ => store.pushAll later

/-- No rule erases a symbol. -/
def KeepsSymbols (store : MatrixRules) : Prop :=
  ∀ matrix ∈ store.matrices, ∀ rule ∈ matrix.rules, rule.right ≠ []

variable {store : MatrixRules} {alphabet : Alphabet}

theorem KeepsSymbols.push {next : MatrixRules} {matrix : Matrix} (h : store.KeepsSymbols)
    (hpush : store.push matrix = .ok next) : next.KeepsSymbols := by
  obtain ⟨hmatrix, hnext⟩ := push_eq_ok_iff.mp hpush
  unfold KeepsSymbols
  rw [hnext, List.forall_mem_append]
  refine ⟨h, fun m hm => ?_⟩
  rw [List.mem_singleton.mp (List.mem_of_mem_filter hm)]
  exact hmatrix

theorem KeepsSymbols.pushAll (h : store.KeepsSymbols) (matrices : List Matrix) :
    (store.pushAll matrices).KeepsSymbols := by
  induction matrices generalizing store with
  | nil => exact h
  | cons matrix later ih =>
    unfold MatrixRules.pushAll
    cases hpush : store.push matrix with
    | ok next => exact ih (h.push hpush)
    | error => exact ih h

/-- What validation makes of flaws. -/
def verdict (strict : Bool) (flaws : List MatrixWarning) : Checked Unit :=
  if strict then ⟨[], flaws.head?.elim (.ok ()) fun flaw => .error flaw.refusal⟩
  else ⟨flaws.map Event.warning, .ok ()⟩

/-- In either mode one verdict after the other is a verdict on all flaws. -/
theorem verdict_bind (strict : Bool) (earlier later : List MatrixWarning) :
    (verdict strict earlier >>= fun _ => verdict strict later) =
      verdict strict (earlier ++ later) := by
  cases strict with
  | false => simp [verdict]
  | true => cases earlier <;> simp [verdict]

theorem verdict_flatMap {α : Type} (strict : Bool) {check : α → Checked Unit}
    {flaws : α → List MatrixWarning} {items : List α}
    (h : ∀ item ∈ items, check item = verdict strict (flaws item)) :
    items.forM check = verdict strict (items.flatMap flaws) := by
  induction items with
  | nil => cases strict <;> rfl
  | cons item items ih =>
    obtain ⟨hitem, hitems⟩ := List.forall_mem_cons.mp h
    change check item >>= (fun _ => items.forM check) = _
    rw [hitem, ih hitems, verdict_bind, List.flatMap_cons]

theorem refuseOrWarn_eq_verdict (strict : Bool) (flaw : MatrixWarning) :
    refuseOrWarn strict flaw.refusal flaw = verdict strict [flaw] := by
  cases strict <;> rfl

theorem firstUndeclared_eq_find? (word : Word) :
    alphabet.firstUndeclared word =
      word.find? fun symbol => symbol ∉ alphabet.nonterminals ∧ symbol ∉ alphabet.terminals := by
  unfold Alphabet.firstUndeclared
  congr 1
  funext symbol
  simp [Alphabet.declares, Alphabet.isNonterminal, Alphabet.isTerminal]

theorem checkRight_eq_verdict (alphabet : Alphabet) (strict : Bool) (rule : Rule) :
    (match alphabet.firstUndeclared rule.right with
      | some symbol =>
        refuseOrWarn strict (.undeclaredSymbol symbol rule) (.undeclaredRight symbol rule)
      | none => pure ()) =
      verdict strict ((alphabet.firstUndeclared rule.right).map
        (MatrixWarning.undeclaredRight · rule)).toList := by
  cases alphabet.firstUndeclared rule.right with
  | none => cases strict <;> rfl
  | some symbol => exact refuseOrWarn_eq_verdict strict (.undeclaredRight symbol rule)

theorem checkRule_eq_verdict (strict : Bool) {rule : Rule} (h : rule.right ≠ []) :
    checkRule alphabet strict rule = verdict strict (alphabet.flaws rule) := by
  unfold checkRule Alphabet.flaws
  rw [if_neg h, ← verdict_bind, ← firstUndeclared_eq_find?, ← checkRight_eq_verdict]
  by_cases hleft : rule.left ∈ alphabet.nonterminals
  · rw [if_pos hleft]
    simp only [Alphabet.isNonterminal_iff.mpr hleft, Bool.not_true, Bool.false_eq_true, if_false]
    cases strict <;> rfl
  · have hnot : alphabet.isNonterminal rule.left = false := by
      rw [← Bool.not_eq_true, Alphabet.isNonterminal_iff]
      exact hleft
    rw [if_neg hleft, ← refuseOrWarn_eq_verdict]
    simp only [hnot, Bool.not_false, if_true]
    rfl

/-- Validation of a store that erases no symbol only depends on its flaws. -/
theorem KeepsSymbols.validate_eq (h : store.KeepsSymbols) (alphabet : Alphabet) (strict : Bool) :
    store.validate alphabet strict = verdict strict (store.flaws alphabet) :=
  verdict_flatMap strict fun matrix hmatrix =>
    verdict_flatMap strict fun rule hrule => checkRule_eq_verdict strict (h matrix hmatrix rule hrule)

/-- However a store has come about, lenient validation accepts it and reports its flaws, and strict
validation refuses it for the flaw that is reported first. -/
theorem strict_refuses_first_warning (matrices : List Matrix) (alphabet : Alphabet) :
    let store := empty.pushAll matrices
    (store.validate alphabet false).result = .ok () ∧
      (store.validate alphabet false).events = (store.flaws alphabet).map .warning ∧
      ((∃ error, (store.validate alphabet true).result = .error error) ↔
        (store.validate alphabet false).events ≠ []) ∧
      ∀ error, (store.validate alphabet true).result = .error error ↔
        ∃ flaw later, (store.validate alphabet false).events = .warning flaw :: later ∧
          error = flaw.refusal := by
  intro store
  have hkeeps : store.KeepsSymbols :=
    KeepsSymbols.pushAll (fun matrix hmatrix => absurd hmatrix List.not_mem_nil) matrices
  rw [hkeeps.validate_eq, hkeeps.validate_eq]
  cases store.flaws alphabet with
  | nil => simp [verdict]
  | cons flaw later =>
    refine ⟨rfl, rfl, ⟨fun _ => List.cons_ne_nil _ _, fun _ => ⟨flaw.refusal, rfl⟩⟩, fun error => ?_⟩
    constructor
    · rintro ⟨⟩
      exact ⟨flaw, _, rfl, rfl⟩
    · rintro ⟨_, _, hevents, rfl⟩
      cases hevents
      rfl

end MatrixRules
end BoundedDerivation
