import BoundedDerivation.LineForm.Reader

/-! Which line an error blames. A malformed rule is blamed on the line of the rules, and nothing
else that can be wrong with five lines depends on where they stand. So the reading of five lines is
the same wherever they stand, up to the line that is blamed. Building a grammar blames no line at
all. -/
namespace BoundedDerivation

namespace GrammarError

def line? : GrammarError → Option Nat
  | tooFewLines line _ | malformedRule line _ => some line
  | _ => none

/-- The error without the number of the line that it blames. -/
def unnumbered : GrammarError → GrammarError
  | tooFewLines _ found => tooFewLines 0 found
  | malformedRule _ item => malformedRule 0 item
  | other => other

end GrammarError

variable {α β : Type} {line : Option Nat}

/-- Every failure blames the given line, or none. -/
def Blames (line : Option Nat) (result : Except GrammarError α) : Prop :=
  ∀ error, result = .error error → error.line? = none ∨ error.line? = line

namespace Blames

theorem ok (value : α) : Blames line (.ok value) := nofun

theorem error {error : GrammarError} (h : error.line? = none ∨ error.line? = line) :
    Blames line (.error error : Except GrammarError α) := by
  rintro _ ⟨⟩
  exact h

theorem of_none {result : Except GrammarError α} (h : Blames none result) : Blames line result :=
  fun error herror => .inl ((h error herror).elim id id)

theorem bind {first : Except GrammarError α} {next : α → Except GrammarError β}
    (hfirst : Blames line first) (hnext : ∀ a, Blames line (next a)) :
    Blames line (first >>= next) := by
  cases first with
  | error other => exact error (hfirst other rfl)
  | ok value => exact hnext value

theorem map {result : Except GrammarError α} (h : Blames line result) (f : α → β) :
    Blames line (result.map f) := by
  cases result with
  | error other => exact error (h other rfl)
  | ok value => exact ok (f value)

theorem mapM {f : α → Except GrammarError β} (h : ∀ item, Blames line (f item)) (items : List α) :
    Blames line (items.mapM f) := by
  induction items with
  | nil => exact ok []
  | cons item items ih =>
    rw [List.mapM_cons]
    exact (h item).bind fun _ => ih.bind fun _ => ok _

theorem foldlM {f : β → α → Except GrammarError β} (h : ∀ state item, Blames line (f state item))
    (items : List α) (state : β) : Blames line (items.foldlM f state) := by
  induction items generalizing state with
  | nil => exact ok state
  | cons item items ih =>
    rw [List.foldlM_cons]
    exact (h state item).bind ih

theorem forM {f : α → Except GrammarError Unit} (h : ∀ item, Blames line (f item)) (items : List α) :
    Blames line (items.forM f) := by
  induction items with
  | nil => exact ok ()
  | cons item items ih => exact (h item).bind fun _ => ih

theorem checked_bind {first : Checked α} {next : α → Checked β} (hfirst : Blames line first.result)
    (hnext : ∀ a, Blames line (next a).result) : Blames line (first >>= next).result := by
  obtain ⟨events, result⟩ := first
  cases result with
  | error other => exact error (hfirst other rfl)
  | ok value => exact hnext value

/-- A test that comes before the rest. -/
theorem checked_test {test : Prop} [Decidable test] {first : Checked Unit} {next : Unit → Checked β}
    (hfirst : Blames line first.result) (hnext : ∀ u, Blames line (next u).result) :
    Blames line (if test then first >>= next else next ()).result := by
  split
  · exact checked_bind hfirst hnext
  · exact hnext ()

theorem checked_forM {f : α → Checked Unit} (h : ∀ item, Blames line (f item).result)
    (items : List α) : Blames line (items.forM f).result := by
  induction items with
  | nil => exact ok ()
  | cons item items ih => exact checked_bind (h item) fun _ => ih

end Blames

section Building

theorem Alphabet.blames_validate (alphabet : Alphabet) : Blames none alphabet.validate := by
  unfold Alphabet.validate
  split
  · exact .error (.inl rfl)
  · exact .ok ()

theorem ContextFreeRules.blames_check (alphabet : Alphabet) (rule : Rule) :
    Blames none (check alphabet rule) := by
  unfold check
  split
  · exact .error (.inl rfl)
  · split
    · exact .error (.inl rfl)
    · split
      · exact .error (.inl rfl)
      · exact .ok ()

theorem MatrixRules.blames_push (store : MatrixRules) (matrix : Matrix) :
    Blames none (store.push matrix) := by
  refine .map ?_ _
  unfold push?
  split
  · exact .ok none
  · split
    · exact .error (.inl rfl)
    · exact .ok _

theorem MatrixRules.blames_refuseOrWarn (strict : Bool) {error : GrammarError}
    (h : error.line? = none) (warning : MatrixWarning) :
    Blames none (refuseOrWarn strict error warning).result := by
  unfold refuseOrWarn
  split
  · exact .error (.inl h)
  · exact .ok ()

theorem MatrixRules.blames_checkRule (alphabet : Alphabet) (strict : Bool) (rule : Rule) :
    Blames none (checkRule alphabet strict rule).result := by
  unfold checkRule
  dsimp only
  refine .checked_test (.error (.inl rfl)) fun _ => ?_
  refine .checked_test (blames_refuseOrWarn strict rfl _) fun _ => ?_
  split
  · exact blames_refuseOrWarn strict rfl _
  · exact .ok ()

theorem RuleStore.blames_validate (alphabet : Alphabet) (strict : Bool) (store : RuleStore) :
    Blames none (store.validate alphabet strict).result := by
  cases store with
  | contextFree rules => exact .forM (ContextFreeRules.blames_check alphabet) rules.toList
  | matrix rules =>
    exact .checked_forM (fun matrix =>
      .checked_forM (MatrixRules.blames_checkRule alphabet strict) matrix.rules) rules.matrices

theorem Grammar.blames_validate (grammar : Grammar) : Blames none grammar.validate.result := by
  unfold Grammar.validate
  refine .checked_bind grammar.alphabet.blames_validate fun _ => ?_
  exact .checked_test (.error (.inl rfl)) fun _ => RuleStore.blames_validate _ _ _

theorem Draft.blames_store (draft : Draft) (alphabet : Alphabet) :
    Blames none (draft.store alphabet) := by
  unfold Draft.store
  cases draft.kind with
  | contextFree =>
    dsimp only
    split
    · exact .error (.inl rfl)
    · exact .map (.foldlM (fun _ rule => .bind (ContextFreeRules.blames_check alphabet rule)
        fun _ => .ok _) _ _) _
  | matrix =>
    dsimp only
    split
    · exact .error (.inl rfl)
    · exact .map (.foldlM MatrixRules.blames_push _ _) _

theorem Draft.blames_build (draft : Draft) : Blames none draft.build.result := by
  unfold Draft.build
  refine .checked_bind (.bind (Alphabet.blames_validate _) fun _ => .ok _) fun alphabet => ?_
  refine .checked_bind (draft.blames_store alphabet) fun rules => ?_
  exact .checked_bind (Grammar.blames_validate _) fun _ => .ok _

end Building

theorem blames_readSymbol (token : Text) : Blames none (readSymbol token) := by
  unfold readSymbol
  split
  · exact .ok _
  · exact .error (.inl rfl)

theorem blames_readKind (token : Text) : Blames none (readKind token) := by
  unfold readKind
  dsimp only
  split
  · exact .ok _
  · split
    · exact .ok _
    · exact .error (.inl rfl)

/-- The same outcome up to the line that an error blames. -/
def SameOutcome (first second : Except GrammarError α) : Prop :=
  first.mapError GrammarError.unnumbered = second.mapError GrammarError.unnumbered

namespace SameOutcome

variable {first second : Except GrammarError α}

theorem cases (h : SameOutcome first second) :
    (∃ value, first = .ok value ∧ second = .ok value) ∨
      ∃ error other, first = .error error ∧ second = .error other ∧
        error.unnumbered = other.unnumbered := by
  cases first with
  | error error =>
    cases second with
    | error other => exact .inr ⟨error, other, rfl, rfl, Except.error.inj h⟩
    | ok value => cases h
  | ok value =>
    cases second with
    | error other => cases h
    | ok other =>
      obtain rfl := Except.ok.inj h
      exact .inl ⟨value, rfl, rfl⟩

theorem bind {next later : α → Except GrammarError β} (h : SameOutcome first second)
    (hnext : ∀ a, SameOutcome (next a) (later a)) :
    SameOutcome (first >>= next) (second >>= later) := by
  rcases h.cases with ⟨value, rfl, rfl⟩ | ⟨error, other, rfl, rfl, hsame⟩
  · exact hnext value
  · exact congrArg Except.error hsame

theorem checked_bind (h : SameOutcome first second) (next : α → Checked β) :
    (Checked.ofExcept first >>= next).events = (Checked.ofExcept second >>= next).events ∧
      SameOutcome (Checked.ofExcept first >>= next).result
        (Checked.ofExcept second >>= next).result := by
  rcases h.cases with ⟨value, rfl, rfl⟩ | ⟨error, other, rfl, rfl, hsame⟩
  · exact ⟨rfl, rfl⟩
  · exact ⟨rfl, congrArg Except.error hsame⟩

/-- Two computations with a first step in common. -/
theorem bind_self {next later : α → Except GrammarError β}
    (h : ∀ a, first = .ok a → SameOutcome (next a) (later a)) :
    SameOutcome (first >>= next) (first >>= later) := by
  cases first with
  | error error => rfl
  | ok value => exact h value rfl

theorem mapM {f g : α → Except GrammarError β} (h : ∀ item, SameOutcome (f item) (g item))
    (items : List α) : SameOutcome (items.mapM f) (items.mapM g) := by
  induction items with
  | nil => rfl
  | cons item items ih =>
    rw [List.mapM_cons, List.mapM_cons]
    exact (h item).bind fun _ => ih.bind fun _ => rfl

end SameOutcome

namespace LineForm

theorem blames_readRule (line : Nat) (item : Text) : Blames (some line) (readRule line item) := by
  unfold readRule
  split
  · exact .error (.inr rfl)
  · refine .bind (blames_readSymbol _).of_none fun _ => ?_
    dsimp only
    split
    · exact .error (.inl rfl)
    · exact .ok _

theorem sameOutcome_readRule (line other : Nat) (item : Text) :
    SameOutcome (readRule line item) (readRule other item) := by
  unfold readRule
  cases cutItem item <;> rfl

theorem blames_readDraft (kind nonterminals terminals rules start : Line) (config : Config) :
    Blames (some rules.number) (readDraft kind nonterminals terminals rules start config) := by
  unfold readDraft
  have hsymbols : ∀ text, Blames (some rules.number) (readSymbols text) :=
    fun text => .mapM (fun token => (blames_readSymbol token).of_none) _
  have hrules : ∀ text, Blames (some rules.number) (readRules rules.number text) :=
    fun text => .mapM (blames_readRule rules.number) _
  refine .bind (blames_readKind _).of_none fun kind => .bind (hsymbols _) fun _ =>
    .bind (hsymbols _) fun _ => .bind (blames_readSymbol _).of_none fun _ => ?_
  cases kind with
  | contextFree => exact .bind (hrules _) fun _ => .ok _
  | matrix => exact .bind (.bind (.mapM hrules _) fun _ => .ok _) fun _ => .ok _

end LineForm
end BoundedDerivation
