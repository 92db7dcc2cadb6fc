import BoundedDerivation.Proofs.LineForm.Matching
import Mathlib.Data.List.Forall2

/-! What a list of rules says. An item is cut at an arrow, and the arrow is found in two stages: one
that blanks separate from the first run of the item counts before all those inside the run, and of
these the last one counts. So an item has at most one cut, and it is a rule or has one fault. The
list is read from left to right up to its first fault. -/
namespace BoundedDerivation

namespace Except

variable {ε α β : Type} {f g : α → Except ε β} {items : List α}

theorem mapM_eq_ok_iff {results : List β} :
    items.mapM f = .ok results ↔
      List.Forall₂ (fun item result => f item = .ok result) items results := by
  induction items generalizing results with
  | nil => simp [pure, Except.pure, eq_comm]
  | cons item items ih =>
    simp only [List.mapM_cons, bind_eq_ok_iff, ih, pure, Except.pure, Except.ok.injEq,
      List.forall₂_cons_left_iff]
    constructor
    · rintro ⟨result, hitem, later, hlater, rfl⟩
      exact ⟨result, later, hitem, hlater, rfl⟩
    · rintro ⟨result, later, hitem, hlater, rfl⟩
      exact ⟨result, hitem, later, hlater, rfl⟩

/-- The first item that fails decides how all of them fail. -/
theorem mapM_eq_error_iff {error : ε} :
    items.mapM f = .error error ↔
      ∃ earlier item later results, items = earlier ++ item :: later ∧
        List.Forall₂ (fun item result => f item = .ok result) earlier results ∧
        f item = .error error := by
  induction items with
  | nil => simp [pure, Except.pure]
  | cons first items ih =>
    rw [List.mapM_cons]
    cases hfirst : f first with
    | error other =>
      change Except.error other = .error error ↔ _
      constructor
      · rintro ⟨⟩
        exact ⟨[], first, items, [], rfl, .nil, hfirst⟩
      · rintro ⟨_ | ⟨_, earlier⟩, item, later, results, hsplit, hearlier, hitem⟩
        · obtain ⟨rfl, -⟩ := List.cons.inj hsplit
          rw [hfirst] at hitem
          cases hitem
          rfl
        · obtain ⟨rfl, -⟩ := List.cons.inj hsplit
          obtain ⟨result, _, hok, -⟩ := List.forall₂_cons_left_iff.mp hearlier
          rw [hfirst] at hok
          cases hok
    | ok value =>
      have hrest : ((do let rest ← items.mapM f; pure (value :: rest)) : Except ε (List β)) =
          .error error ↔ items.mapM f = .error error := by
        cases items.mapM f <;> simp [bind, Except.bind, pure, Except.pure]
      refine hrest.trans (ih.trans ?_)
      constructor
      · rintro ⟨earlier, item, later, results, rfl, hearlier, hitem⟩
        exact ⟨first :: earlier, item, later, value :: results, rfl, .cons hfirst hearlier, hitem⟩
      · rintro ⟨_ | ⟨_, earlier⟩, item, later, results, hsplit, hearlier, hitem⟩
        · obtain ⟨rfl, -⟩ := List.cons.inj hsplit
          rw [hfirst] at hitem
          cases hitem
        · obtain ⟨rfl, hitems⟩ := List.cons.inj hsplit
          obtain ⟨_, results, -, hearlier, -⟩ := List.forall₂_cons_left_iff.mp hearlier
          exact ⟨earlier, item, later, results, hitems, hearlier, hitem⟩

theorem mapM_congr (h : ∀ item ∈ items, f item = g item) : items.mapM f = items.mapM g := by
  induction items with
  | nil => rfl
  | cons item items ih =>
    obtain ⟨hitem, hitems⟩ := List.forall_mem_cons.mp h
    rw [List.mapM_cons, List.mapM_cons, hitem, ih hitems]

end Except

namespace LineForm
open Text

variable {item run later left rest : Text}

theorem LeadingRun.unique {other last : Text} (h : LeadingRun item run later)
    (hother : LeadingRun item other last) : other = run ∧ last = later :=
  ⟨hother.takeWhile_eq.symm.trans h.takeWhile_eq, hother.dropWhile_eq.symm.trans h.dropWhile_eq⟩

/-- Blanks, at least one, and an arrow lead to the rest. -/
def ArrowFollows (later rest : Text) : Prop :=
  ∃ gap, gap ≠ [] ∧ (∀ c ∈ gap, isBlank c = true) ∧ later = gap ++ arrow ++ rest

/-- An item is cut at the arrow that follows its run. If none does, it is cut at the last arrow
inside the run that has something on its left. -/
inductive IsCut (item : Text) : Text → Text → Prop
  | behindRun {run later rest : Text} (leads : LeadingRun item run later)
      (follows : ArrowFollows later rest) : IsCut item run rest
  | insideRun {left tail later : Text} (leads : LeadingRun item (left ++ arrow ++ tail) later)
      (alone : ∀ rest, ¬ArrowFollows later rest) (inside : left ≠ [])
      (last : ∀ before after, left ++ arrow ++ tail = before ++ arrow ++ after →
        before.length ≤ left.length) : IsCut item left (tail ++ later)

/-- Cut where it has to be, the item has the two sides of the rule. -/
structure IsRead (item : Text) (rule : Rule) : Prop where
  cut : ∃ rest, IsCut item [rule.left] rest ∧ trim rest = rule.right
  right_ne_nil : rule.right ≠ []

/-- Why an item of a line is no rule. A left side of another length than one comes before a right
side without content. -/
inductive ItemFault (line : Nat) (item : Text) : GrammarError → Prop
  | uncut (nowhere : ∀ left rest, ¬IsCut item left rest) :
      ItemFault line item (.malformedRule line item)
  | left {left rest : Text} (cut : IsCut item left rest) (wide : left.length ≠ 1) :
      ItemFault line item (.invalidSymbol left)
  | right {symbol : Char} {rest : Text} (cut : IsCut item [symbol] rest) (empty : trim rest = []) :
      ItemFault line item (.emptyProduction item)

theorem arrowFollows_iff (hlater : ∀ c ∈ later.head?, isBlank c = true) :
    ArrowFollows later rest ↔ behindArrow (trimLeft later) = some rest := by
  rw [behindArrow_eq_some_iff]
  constructor
  · rintro ⟨gap, -, hblank, rfl⟩
    rw [trimLeft, List.append_assoc, List.dropWhile_append_of_pos hblank]
    rfl
  · intro h
    have hsplit : later = later.takeWhile isBlank ++ arrow ++ rest := by
      rw [List.append_assoc, ← h]
      exact List.takeWhile_append_dropWhile.symm
    refine ⟨later.takeWhile isBlank, fun hnone => ?_, fun c => List.mem_takeWhile_imp, hsplit⟩
    rw [hnone] at hsplit
    exact absurd (hlater '-' (by simp [hsplit, arrow])) (by decide)

theorem cutLastArrow_eq_some_iff {text before after : Text} :
    cutLastArrow text = some (before, after) ↔
      text = before ++ arrow ++ after ∧ ¬arrow <:+: after := by
  induction text generalizing before with
  | nil => simp [cutLastArrow, arrow]
  | cons c text ih =>
    rw [cutLastArrow_cons_eq]
    cases before with
    | nil =>
      have hfirst : ((cutLastArrow text).map fun cut => (c :: cut.1, cut.2)).or
          ((behindArrow (c :: text)).map ([], ·)) = some ([], after) ↔
            cutLastArrow text = none ∧ behindArrow (c :: text) = some after := by
        cases cutLastArrow text <;> simp
      rw [hfirst, cutLastArrow_eq_none_iff, behindArrow_eq_some_iff]
      constructor
      · rintro ⟨hno, hsplit⟩
        obtain ⟨rfl, rfl⟩ := List.cons.inj hsplit
        exact ⟨rfl, fun h => hno (List.infix_cons h)⟩
      · rintro ⟨hsplit, hno⟩
        obtain ⟨rfl, rfl⟩ := List.cons.inj hsplit
        refine ⟨fun h => ?_, rfl⟩
        rcases List.infix_cons_iff.mp h with hstart | h
        · simp [arrow] at hstart
        · exact hno h
    | cons b before =>
      have hlater : ((cutLastArrow text).map fun cut => (c :: cut.1, cut.2)).or
          ((behindArrow (c :: text)).map ([], ·)) = some (b :: before, after) ↔
            c = b ∧ cutLastArrow text = some (before, after) := by
        cases cutLastArrow text <;> simp [Prod.ext_iff, and_assoc]
      rw [hlater, ih]
      simp [and_assoc]

/-- What follows an arrow holds no other one exactly if no other one starts further right. -/
theorem not_infix_arrow_iff {tail : Text} :
    ¬arrow <:+: tail ↔ ∀ before after, left ++ arrow ++ tail = before ++ arrow ++ after →
      before.length ≤ left.length := by
  constructor
  · intro hno before after hsplit
    by_contra hlonger
    rw [List.append_assoc, List.append_assoc] at hsplit
    rcases List.append_eq_append_iff.mp hsplit with ⟨between, rfl, hbetween⟩ | ⟨between, rfl, -⟩
    · rcases between with _ | ⟨_, _ | ⟨_, between⟩⟩
      · simp at hlonger
      · simp [arrow] at hbetween
      · simp only [arrow, List.cons_append, List.nil_append, List.cons.injEq] at hbetween
        obtain ⟨-, -, rfl⟩ := hbetween
        exact hno ⟨between, after, by simp [arrow]⟩
    · simp at hlonger
  · rintro hlast ⟨before, after, rfl⟩
    have hle := hlast (left ++ arrow ++ before) after (by simp)
    simp only [arrow, List.length_append, List.length_cons] at hle
    omega

theorem cutItem_eq_some_iff : cutItem item = some (left, rest) ↔ IsCut item left rest := by
  have hrun := LeadingRun.of_item item
  generalize item.takeWhile (!isBlank ·) = run at hrun
  generalize item.dropWhile (!isBlank ·) = later at hrun
  have hfollows : ∀ rest, ArrowFollows later rest ↔ behindArrow (trimLeft later) = some rest :=
    fun _ => arrowFollows_iff hrun.longest
  cases harrow : behindArrow (trimLeft later) with
  | some after =>
    rw [hrun.cutItem_of_some harrow, Option.some.injEq, Prod.mk.injEq]
    constructor
    · rintro ⟨rfl, rfl⟩
      exact .behindRun hrun ((hfollows _).mpr harrow)
    · intro hcut
      cases hcut with
      | behindRun hleads hafter =>
        obtain ⟨rfl, rfl⟩ := hrun.unique hleads
        rw [hfollows, harrow] at hafter
        exact ⟨rfl, Option.some.inj hafter⟩
      | insideRun hleads halone =>
        obtain ⟨rfl, rfl⟩ := hrun.unique hleads
        exact absurd ((hfollows _).mpr harrow) (halone after)
  | none =>
    have halone : ∀ rest, ¬ArrowFollows later rest := fun rest h => by
      rw [hfollows, harrow] at h
      cases h
    rcases run with _ | ⟨first, more⟩
    · rw [hrun.cutItem_of_nil harrow]
      refine iff_of_false nofun fun hcut => ?_
      cases hcut with
      | behindRun hleads hafter =>
        obtain ⟨rfl, rfl⟩ := hrun.unique hleads
        exact halone _ hafter
      | insideRun hleads =>
        obtain ⟨hnil, -⟩ := hrun.unique hleads
        simp [arrow] at hnil
    · rw [hrun.cutItem_of_none harrow, Option.map_eq_some_iff]
      constructor
      · rintro ⟨⟨before, tail⟩, hlast, hcut⟩
        obtain ⟨rfl, rfl⟩ := Prod.mk.inj hcut
        obtain ⟨rfl, hno⟩ := cutLastArrow_eq_some_iff.mp hlast
        exact .insideRun hrun halone (List.cons_ne_nil first before) (not_infix_arrow_iff.mp hno)
      · intro hcut
        cases hcut with
        | behindRun hleads hafter =>
          obtain ⟨rfl, rfl⟩ := hrun.unique hleads
          exact absurd hafter (halone _)
        | @insideRun tail _ hleads _ hinside hlast =>
          obtain ⟨hsplit, rfl⟩ := hrun.unique hleads
          obtain ⟨_, before, rfl⟩ := List.exists_cons_of_ne_nil hinside
          obtain ⟨rfl, rfl⟩ := List.cons.inj hsplit
          have hno := not_infix_arrow_iff.mpr hlast
          exact ⟨(before, tail), cutLastArrow_eq_some_iff.mpr ⟨rfl, hno⟩, rfl⟩

theorem IsCut.solid (h : IsCut item left rest) : ∀ c ∈ left, isBlank c = false := by
  cases h with
  | behindRun hleads => exact hleads.solid
  | insideRun hleads =>
    intro c hc
    exact hleads.solid c (by simp [hc])

theorem readSymbol_of_solid (h : ∀ c ∈ left, isBlank c = false) :
    (∃ symbol, left = [symbol] ∧ readSymbol left = .ok symbol) ∨
      left.length ≠ 1 ∧ readSymbol left = .error (.invalidSymbol left) := by
  have htrim : trim left = left := by
    by_cases hne : left = []
    · rw [hne, trim_nil]
    · exact (Solid.of_no_blank hne h).trim_eq
  unfold readSymbol
  rw [htrim]
  match left with
  | [symbol] => exact .inl ⟨symbol, rfl, rfl⟩
  | [] => exact .inr ⟨by simp, rfl⟩
  | _ :: _ :: _ => exact .inr ⟨by simp, rfl⟩

theorem readRule_of_cut (line : Nat) {symbol : Char} (hcut : IsCut item left rest)
    (hsymbol : readSymbol left = .ok symbol) :
    readRule line item =
      if trim rest = [] then .error (.emptyProduction item) else .ok ⟨symbol, trim rest⟩ := by
  unfold readRule
  rw [cutItem_eq_some_iff.mpr hcut]
  dsimp only
  rw [hsymbol]
  split <;> simp_all [bind, Except.bind, pure, Except.pure, throw, throwThe, MonadExceptOf.throw]

theorem readRule_of_invalid {line : Nat} {error : GrammarError} (hcut : IsCut item left rest)
    (hsymbol : readSymbol left = .error error) : readRule line item = .error error := by
  unfold readRule
  rw [cutItem_eq_some_iff.mpr hcut]
  dsimp only
  rw [hsymbol]
  rfl

theorem readRule_of_uncut (line : Nat) (h : ∀ left rest, ¬IsCut item left rest) :
    readRule line item = .error (.malformedRule line item) := by
  have hcut : cutItem item = none := by
    refine Option.eq_none_iff_forall_ne_some.mpr fun cut hcut => ?_
    exact h cut.1 cut.2 (cutItem_eq_some_iff.mp hcut)
  unfold readRule
  rw [hcut]

/-- The tests of an item in their order. -/
theorem readRule_cases (line : Nat) (item : Text) :
    (∃ rule, readRule line item = .ok rule ∧ IsRead item rule) ∨
      ∃ error, readRule line item = .error error ∧ ItemFault line item error := by
  cases hcut : cutItem item with
  | none =>
    have hnowhere : ∀ left rest, ¬IsCut item left rest := fun left rest h => by
      rw [cutItem_eq_some_iff.mpr h] at hcut
      cases hcut
    exact .inr ⟨_, readRule_of_uncut line hnowhere, .uncut hnowhere⟩
  | some cut =>
    obtain ⟨left, rest⟩ := cut
    have hcut := cutItem_eq_some_iff.mp hcut
    rcases readSymbol_of_solid hcut.solid with ⟨symbol, rfl, hsymbol⟩ | ⟨hwide, hsymbol⟩
    · have hread := readRule_of_cut line hcut hsymbol
      split at hread
      · rename_i hempty
        exact .inr ⟨_, hread, .right hcut hempty⟩
      · rename_i hright
        exact .inl ⟨_, hread, ⟨rest, hcut, rfl⟩, hright⟩
    · exact .inr ⟨_, readRule_of_invalid hcut hsymbol, .left hcut hwide⟩

theorem readSymbol_of_cut {symbol : Char} (hcut : IsCut item [symbol] rest) :
    readSymbol [symbol] = .ok symbol := by
  rcases readSymbol_of_solid hcut.solid with ⟨_, hsingle, hread⟩ | ⟨hwide, -⟩
  · obtain ⟨rfl, -⟩ := List.cons.inj hsingle
    exact hread
  · exact absurd rfl hwide

theorem IsRead.readRule_eq {rule : Rule} (h : IsRead item rule) (line : Nat) :
    readRule line item = .ok rule := by
  obtain ⟨⟨rest, hcut, hright⟩, hne⟩ := h
  rw [readRule_of_cut line hcut (readSymbol_of_cut hcut), hright, if_neg hne]

theorem ItemFault.readRule_eq {line : Nat} {error : GrammarError} (h : ItemFault line item error) :
    readRule line item = .error error := by
  cases h with
  | uncut hnowhere => exact readRule_of_uncut line hnowhere
  | left hcut hwide =>
    rcases readSymbol_of_solid hcut.solid with ⟨_, rfl, -⟩ | ⟨-, hsymbol⟩
    · exact absurd rfl hwide
    · exact readRule_of_invalid hcut hsymbol
  | right hcut hempty =>
    exact (readRule_of_cut line hcut (readSymbol_of_cut hcut)).trans (if_pos hempty)

theorem readRule_eq_ok_iff {line : Nat} {rule : Rule} :
    readRule line item = .ok rule ↔ IsRead item rule := by
  refine ⟨fun h => ?_, fun h => h.readRule_eq line⟩
  rcases readRule_cases line item with ⟨read, hread, hrule⟩ | ⟨error, hread, -⟩
  · rw [hread] at h
    cases h
    exact hrule
  · rw [hread] at h
    cases h

theorem readRule_eq_error_iff {line : Nat} {error : GrammarError} :
    readRule line item = .error error ↔ ItemFault line item error := by
  refine ⟨fun h => ?_, ItemFault.readRule_eq⟩
  rcases readRule_cases line item with ⟨rule, hread, -⟩ | ⟨found, hread, hfault⟩
  · rw [hread] at h
    cases h
  · rw [hread] at h
    cases h
    exact hfault

/-- By the pattern of a rule an item is read as by hand. -/
theorem matchRule_eq_readRule (line : Nat) {first : Char} {more : Text}
    (hfirst : isBlank first = false) (h : '\n' ∉ first :: more) :
    matchRule line (first :: more) = readRule line (first :: more) := by
  have hrun := LeadingRun.of_item (first :: more)
  have hne : (first :: more).takeWhile (!isBlank ·) ≠ [] := by simp [hfirst]
  unfold matchRule readRule
  rw [captures_rulePattern hrun hne h]
  cases cutItem (first :: more) <;> rfl

/-- The list is read as the pattern of a rule has it. All of its items are rules, in their order, or
the first one that is not has the fault that is reported. -/
theorem rule_list_follows_pattern (line : Nat) {text : Text} (h : '\n' ∉ text) :
    readRules line text = matchRules line text ∧
      (∀ rules, readRules line text = .ok rules ↔
        List.Forall₂ IsRead (((text.splitOn ';').map trim).filter (· ≠ [])) rules) ∧
      ∀ error, readRules line text = .error error ↔
        ∃ earlier item later rules,
          ((text.splitOn ';').map trim).filter (· ≠ []) = earlier ++ item :: later ∧
            List.Forall₂ IsRead earlier rules ∧ ItemFault line item error := by
  refine ⟨Except.mapM_congr fun item hitem => ?_, fun rules => ?_, fun error => ?_⟩
  · obtain ⟨htrimmed, hne⟩ := List.mem_filter.mp hitem
    obtain ⟨piece, hpiece, rfl⟩ := List.mem_map.mp htrimmed
    obtain ⟨first, more, hitem⟩ := List.exists_cons_of_ne_nil (of_decide_eq_true hne)
    have hunbroken : '\n' ∉ trim piece :=
      fun hmem => h (mem_of_mem_splitOn hpiece ((trim_sublist piece).mem hmem))
    rw [hitem] at hunbroken ⊢
    exact (matchRule_eq_readRule line (not_isBlank_of_trim_eq_cons hitem) hunbroken).symm
  · simp only [readRules, items, Except.mapM_eq_ok_iff, readRule_eq_ok_iff]
  · simp only [readRules, items, Except.mapM_eq_error_iff, readRule_eq_ok_iff,
      readRule_eq_error_iff]

/-- Three rules with arrows to spare, and a list that ends at an arrow too many. -/
theorem rule_list_of_spare_arrows :
    '\n' ∉ "S ->a->b;; -->c ; A-> x".toList ∧ '\n' ∉ "S->a;S->a->b;->".toList ∧
      matchRules 4 "S ->a->b;; -->c ; A-> x".toList =
        .ok [⟨'S', "a->b".toList⟩, ⟨'-', ['c']⟩, ⟨'A', ['x']⟩] ∧
      matchRules 4 "S->a;S->a->b;->".toList = .error (.invalidSymbol "S->a".toList) := by
  have hgood : '\n' ∉ "S ->a->b;; -->c ; A-> x".toList := by decide
  have hbad : '\n' ∉ "S->a;S->a->b;->".toList := by decide
  obtain ⟨hread, -⟩ := rule_list_follows_pattern 4 hgood
  obtain ⟨hfault, -⟩ := rule_list_follows_pattern 4 hbad
  refine ⟨hgood, hbad, ?_, ?_⟩
  · rw [← hread]
    decide
  · rw [← hfault]
    decide

end LineForm
end BoundedDerivation
