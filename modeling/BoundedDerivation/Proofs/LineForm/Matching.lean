import BoundedDerivation.LineForm.Matching
import BoundedDerivation.Proofs.LineForm.Items

/-! Where the pattern of a rule cuts an item. -/
namespace BoundedDerivation

namespace Text

variable {fits : Char → Bool} {c : Char} {text : Text} {α : Type}

theorem takings_cons (fits : Char → Bool) (c : Char) (text : Text) :
    takings fits (c :: text) =
      if fits c then (takings fits text).map (Prod.map (c :: ·) id) ++ [([], c :: text)]
      else [([], c :: text)] := rfl

/-- Nothing but the longest taking can go on if what goes on does not start with a fitting
character. -/
theorem findSome?_takings (next : Text → Option α)
    (h : ∀ c text, fits c → next (c :: text) = none) (text : Text) :
    (takings fits text).findSome? (fun taking => next taking.2) = next (text.dropWhile fits) := by
  induction text with
  | nil => simp [takings]
  | cons c text ih =>
    rw [takings_cons]
    cases hc : fits c with
    | true =>
      simp only [if_true, List.findSome?_append, List.findSome?_map, Function.comp_def,
        Prod.map_snd, id, ih, List.findSome?_cons, List.findSome?_nil, h c text hc,
        Option.or_none, List.dropWhile_cons, hc]
    | false => simp [hc]

/-- The longest taking comes first, and is the choice of whatever can go on after it. -/
theorem findSome?_takings_of_some {next : Text → Option α} {value : α}
    (h : next (text.dropWhile fits) = some value) :
    (takings fits text).findSome? (fun taking => next taking.2) = some value := by
  induction text with
  | nil => simpa [takings] using h
  | cons c text ih =>
    rw [takings_cons]
    cases hc : fits c with
    | true =>
      rw [List.dropWhile_cons, if_pos hc] at h
      simp [List.findSome?_append, List.findSome?_map, Function.comp_def, ih h]
    | false => simpa [hc] using h

theorem trimRight_eq_nil_iff : trimRight text = [] ↔ trimLeft text = [] := by
  induction text with
  | nil => simp
  | cons c text ih =>
    rw [trimRight_cons, trimLeft, List.dropWhile_cons]
    cases hc : isBlank c with
    | true => simpa [trimLeft] using ih
    | false => simp

/-- The shortest taking that leaves only blanks takes what is left by trimming the end. -/
theorem findSome?_takings_reverse (keep : Text → α) (h : ∀ c ∈ text, fits c) :
    (takings fits text).reverse.findSome?
        (fun taking => if trimLeft taking.2 = [] then some (keep taking.1) else none) =
      some (keep (trimRight text)) := by
  induction text generalizing keep with
  | nil => simp [takings]
  | cons c text ih =>
    obtain ⟨hc, htext⟩ := List.forall_mem_cons.mp h
    rw [takings_cons, if_pos hc, List.reverse_append, ← List.map_reverse]
    simp only [List.reverse_singleton, List.singleton_append, List.findSome?_cons]
    by_cases hall : trimLeft (c :: text) = []
    · rw [if_pos hall, trimRight_eq_nil_iff.mpr hall]
    · have hright := mt trimRight_eq_nil_iff.mp hall
      rw [trimRight_cons] at hright ⊢
      rw [if_neg hall, if_neg fun hblank => hright (if_pos hblank)]
      simp only [List.findSome?_map, Function.comp_def, Prod.map_fst, Prod.map_snd, id]
      exact ih (fun taken => keep (c :: taken)) htext

namespace Pattern

variable (first second : Pattern)

theorem captures_sequence (text : Text) :
    (sequence first second).captures text =
      (first.ways text).findSome? fun m => (second.captures m.rest).map (m.groups ++ ·) := by
  simp [captures, ways, List.head?_flatMap, List.map_findSome?, Function.comp_def,
    Match.followedBy]

theorem captures_one_sequence (fits : Char → Bool) (c : Char) (text : Text) :
    (sequence (one fits) second).captures (c :: text) =
      if fits c then second.captures text else none := by
  rw [captures_sequence, ways]
  split <;> simp

theorem captures_many_sequence (fits : Char → Bool) (text : Text) :
    (sequence (many fits) second).captures text =
      (takings fits text).findSome? fun taking => second.captures taking.2 := by
  simp [captures_sequence, ways, List.findSome?_map, Function.comp_def]

theorem captures_group_few_sequence (fits : Char → Bool) (text : Text) :
    (sequence (group (few fits)) second).captures text =
      (takings fits text).reverse.findSome? fun taking =>
        (second.captures taking.2).map (taking.1 :: ·) := by
  simp [captures_sequence, ways, -List.map_reverse, List.findSome?_map, Function.comp_def]

end Pattern
end Text

namespace LineForm
open Text Pattern

/-- What follows an arrow at the very start of a text. -/
def behindArrow : Text → Option Text
  | '-' :: '>' :: after => some after
  | _ => none

theorem behindArrow_eq_some_iff {text after : Text} :
    behindArrow text = some after ↔ text = arrow ++ after := by
  unfold behindArrow
  split
  · simp [arrow, eq_comm]
  · rename_i hno
    simp only [reduceCtorEq, false_iff]
    exact hno after

/-- No arrow reaches across the end of a run. -/
theorem behindArrow_append {text later : Text} (hne : text ≠ [])
    (hlater : ∀ c ∈ later.head?, isBlank c = true) :
    behindArrow (text ++ later) = (behindArrow text).map (· ++ later) := by
  match text with
  | [] => exact absurd rfl hne
  | c :: d :: text =>
    by_cases hc : c = '-' <;> by_cases hd : d = '>' <;> simp [behindArrow, hc, hd]
  | [c] =>
    cases later with
    | nil => simp [behindArrow]
    | cons d later =>
      have hd : d ≠ '>' := by
        rintro rfl
        exact absurd (hlater _ rfl) (by decide)
      simp [behindArrow, hd]

theorem cutLastArrow_cons_eq (c : Char) (text : Text) :
    cutLastArrow (c :: text) =
      ((cutLastArrow text).map fun cut => (c :: cut.1, cut.2)).or
        ((behindArrow (c :: text)).map ([], ·)) := by
  rw [cutLastArrow_cons]
  cases cutLastArrow text with
  | some cut => rfl
  | none =>
    by_cases harrow : ∃ after, c = '-' ∧ text = '>' :: after
    · obtain ⟨after, rfl, rfl⟩ := harrow
      rfl
    · have hbehind : behindArrow (c :: text) = none := by
        rw [behindArrow]
        rintro after ⟨⟩
        exact harrow ⟨after, rfl, rfl⟩
      rw [hbehind]
      dsimp only [Option.map_none, Option.or_none]
      split
      · exact absurd ⟨_, rfl, rfl⟩ harrow
      · rfl

/-- The run is the longest start of the item without blanks. -/
structure LeadingRun (item run later : Text) : Prop where
  split : item = run ++ later
  solid : ∀ c ∈ run, isBlank c = false
  longest : ∀ c ∈ later.head?, isBlank c = true

namespace LeadingRun

variable {item run later : Text}

theorem of_item (item : Text) :
    LeadingRun item (item.takeWhile (!isBlank ·)) (item.dropWhile (!isBlank ·)) := by
  refine ⟨List.takeWhile_append_dropWhile.symm, fun c hc => ?_, fun c hc => ?_⟩
  · simpa using List.mem_takeWhile_imp hc
  · have hhead := List.head?_dropWhile_not (!isBlank ·) item
    rw [Option.mem_def.mp hc] at hhead
    simpa using hhead

theorem takeWhile_eq (h : LeadingRun item run later) : item.takeWhile (!isBlank ·) = run := by
  have hlater : later.takeWhile (!isBlank ·) = [] := by
    cases later with
    | nil => rfl
    | cons c later => simp [h.longest c rfl]
  rw [h.split, List.takeWhile_append_of_pos (by simpa using h.solid), hlater, List.append_nil]

theorem dropWhile_eq (h : LeadingRun item run later) : item.dropWhile (!isBlank ·) = later := by
  have hlater : later.dropWhile (!isBlank ·) = later := by
    cases later with
    | nil => rfl
    | cons c later => simp [h.longest c rfl]
  rw [h.split, List.dropWhile_append_of_pos (by simpa using h.solid), hlater]

/-- An arrow behind the run and blanks comes first. -/
theorem cutItem_of_some {after : Text} (h : LeadingRun item run later)
    (harrow : behindArrow (trimLeft later) = some after) : cutItem item = some (run, after) := by
  unfold cutItem
  rw [h.takeWhile_eq, h.dropWhile_eq]
  dsimp only
  rw [behindArrow_eq_some_iff.mp harrow]
  rfl

theorem cutItem_of_nil (h : LeadingRun item [] later)
    (harrow : behindArrow (trimLeft later) = none) : cutItem item = none := by
  unfold cutItem
  rw [h.takeWhile_eq, h.dropWhile_eq]
  dsimp only
  split
  · rename_i heq
    rw [heq] at harrow
    cases harrow
  · rfl

/-- Without one, the last arrow inside the run counts that is not at its start. -/
theorem cutItem_of_none {first : Char} {more : Text} (h : LeadingRun item (first :: more) later)
    (harrow : behindArrow (trimLeft later) = none) :
    cutItem item = (cutLastArrow more).map fun cut => (first :: cut.1, cut.2 ++ later) := by
  unfold cutItem
  rw [h.takeWhile_eq, h.dropWhile_eq]
  dsimp only
  split
  · rename_i heq
    rw [heq] at harrow
    cases harrow
  · rfl

end LeadingRun

theorem captures_blanks_atEnd (text : Text) :
    (sequence blanks atEnd).captures text = if trimLeft text = [] then some [] else none := by
  rw [blanks, captures_many_sequence, findSome?_takings atEnd.captures]
  · unfold captures ways trimLeft
    split <;> simp
  · simp [captures, ways]

section
variable {text : Text} (h : '\n' ∉ text)
include h

theorem captures_rightSide : (sequence rightSide (sequence blanks atEnd)).captures text =
    some [trimRight text] := by
  have hfits : ∀ c ∈ text, decide (c ≠ '\n') = true := by
    intro c hc
    rw [decide_eq_true_eq]
    rintro rfl
    exact h hc
  rw [rightSide, captures_group_few_sequence, ← findSome?_takings_reverse ([·]) hfits]
  congr 1
  funext taking
  rw [captures_blanks_atEnd]
  split <;> rfl

theorem captures_afterArrow : afterArrow.captures text = some [trim text] := by
  have hrest : '\n' ∉ text.dropWhile isBlank :=
    fun hmem => h ((List.dropWhile_sublist isBlank).mem hmem)
  rw [afterArrow, blanks, captures_many_sequence]
  exact findSome?_takings_of_some (captures_rightSide hrest)

theorem captures_fromArrow : fromArrow.captures text = (behindArrow text).map ([trim ·]) := by
  unfold fromArrow
  match text, h with
  | [], _ => rfl
  | [c], _ => simp [captures_sequence, ways, behindArrow]
  | c :: d :: after, h =>
    have hafter : '\n' ∉ after := by
      simp only [List.mem_cons, not_or] at h
      exact h.2.2
    rw [captures_one_sequence, captures_one_sequence, captures_afterArrow hafter]
    by_cases hc : c = '-' <;> by_cases hd : d = '>'
    · subst hc hd
      rfl
    all_goals simp [behindArrow, hc, hd]

theorem captures_blanks_fromArrow : (sequence blanks fromArrow).captures text =
    (behindArrow (trimLeft text)).map ([trim ·]) := by
  have hrest : '\n' ∉ text.dropWhile isBlank :=
    fun hmem => h ((List.dropWhile_sublist isBlank).mem hmem)
  rw [blanks, captures_many_sequence, findSome?_takings fromArrow.captures]
  · exact captures_fromArrow hrest
  · intro c rest hc
    have hne : c ≠ '-' := by
      rintro rfl
      exact absurd hc (by decide)
    simp [fromArrow, captures_one_sequence, hne]

end

theorem captures_leftSide_sequence (next : Pattern) {first : Char} (h : isBlank first = false)
    (text : Text) :
    (sequence leftSide next).captures (first :: text) =
      (takings (!isBlank ·) text).findSome? fun taking =>
        (next.captures taking.2).map ((first :: taking.1) :: ·) := by
  simp [leftSide, captures_sequence, ways, h, List.findSome?_map, Function.comp_def,
    Match.followedBy]

/-- The left side prefers to be long. So it is the whole run if an arrow follows, and goes back to
the last arrow inside the run otherwise. -/
theorem findSome?_takings_fromArrow {more later : Text} (keep : Text → Text)
    (hsolid : ∀ c ∈ more, isBlank c = false) (hlongest : ∀ c ∈ later.head?, isBlank c = true)
    (h : '\n' ∉ more ++ later) :
    (takings (!isBlank ·) (more ++ later)).findSome?
        (fun taking => ((sequence blanks fromArrow).captures taking.2).map (keep taking.1 :: ·)) =
      ((behindArrow (trimLeft later)).map fun after => [keep more, trim after]).or
        ((cutLastArrow more).map fun cut => [keep cut.1, trim (cut.2 ++ later)]) := by
  induction more generalizing keep with
  | nil =>
    have htakings : takings (!isBlank ·) later = [([], later)] := by
      cases later with
      | nil => rfl
      | cons c later => simp [takings_cons, hlongest c rfl]
    rw [List.nil_append] at h ⊢
    rw [htakings, List.findSome?_singleton, captures_blanks_fromArrow h, Option.map_map]
    simp [cutLastArrow, Function.comp_def]
  | cons c more ih =>
    obtain ⟨hc, hmore⟩ := List.forall_mem_cons.mp hsolid
    have hfits : (!isBlank c) = true := by simp [hc]
    have hlast : '\n' ∉ more ++ later := fun hmem => h (List.mem_cons_of_mem c hmem)
    rw [List.cons_append] at h ⊢
    have hstart : (sequence blanks fromArrow).captures (c :: (more ++ later)) =
        (behindArrow (c :: more)).map fun after => [trim (after ++ later)] := by
      rw [captures_blanks_fromArrow h, trimLeft_of_not_blank hc, ← List.cons_append,
        behindArrow_append (List.cons_ne_nil c more) hlongest, Option.map_map]
      rfl
    have hlonger := ih (fun taken => keep (c :: taken)) hmore hlast
    rw [takings_cons, if_pos hfits, List.findSome?_append, List.findSome?_map,
      List.findSome?_singleton, hstart, cutLastArrow_cons_eq]
    simp only [Function.comp_def, Prod.map_fst, Prod.map_snd, id, hlonger, Option.map_or,
      Option.map_map, Option.or_assoc]

/-- The pattern cuts an item where it is cut by hand, and trims what it finds on the right. -/
theorem captures_rulePattern {item run later : Text} (hrun : LeadingRun item run later)
    (hne : run ≠ []) (h : '\n' ∉ item) :
    rulePattern.captures item = (cutItem item).map fun cut => [cut.1, trim cut.2] := by
  obtain ⟨first, more, rfl⟩ := List.exists_cons_of_ne_nil hne
  obtain ⟨hfirst, hmore⟩ := List.forall_mem_cons.mp hrun.solid
  have hitem : item = first :: (more ++ later) := hrun.split
  have hlater : '\n' ∉ more ++ later := fun hmem => h (hitem ▸ List.mem_cons_of_mem first hmem)
  have hblanks : takings isBlank item = [([], item)] := by
    rw [hitem, takings_cons, hfirst]
    rfl
  have hstart : rulePattern.captures item =
      ((behindArrow (trimLeft later)).map fun after => [first :: more, trim after]).or
        ((cutLastArrow more).map fun cut => [first :: cut.1, trim (cut.2 ++ later)]) := by
    rw [rulePattern, blanks, captures_many_sequence, hblanks, List.findSome?_singleton, hitem,
      captures_leftSide_sequence _ hfirst]
    exact findSome?_takings_fromArrow (first :: ·) hmore hrun.longest hlater
  rw [hstart]
  cases harrow : behindArrow (trimLeft later) with
  | some after =>
    rw [hrun.cutItem_of_some harrow]
    rfl
  | none =>
    rw [hrun.cutItem_of_none harrow, Option.map_map]
    rfl

end LineForm
end BoundedDerivation
