import BoundedDerivation.Proofs.LineForm.Pieces
import Mathlib.Data.List.Induction

/-! Blanks that go unnoticed. Trimming overlooks a blank at either edge of a text. Where a text is
split and its pieces are trimmed, what stands beside a separator is an edge as well, and a place
inside a piece is still the same place. So each level of splitting brings in one more mark beside
which blanks do not count. -/
namespace BoundedDerivation.Text

variable {α β : Type} {f : Text → α} {blank mark separator : Char} {place wide : Text → Text → Prop}

/-- What `f` says about a text is the same with and without a blank in places of this kind. -/
def Overlooks (f : Text → α) (blank : Char) (place : Text → Text → Prop) : Prop :=
  ∀ before after, place before after → f (before ++ blank :: after) = f (before ++ after)

/-- The start or the end of a text. -/
def AtEdge (before after : Text) : Prop := before = [] ∨ after = []

def Beside (mark : Char) (before after : Text) : Prop :=
  before.getLast? = some mark ∨ after.head? = some mark

/-- A wide place in a text is a place of the other kind in the piece that it lies in. -/
def Narrows (separator : Char) (wide place : Text → Text → Prop) : Prop :=
  ∀ ⦃before after⦄, wide before after → ∀ ⦃init last first later⦄,
    before.splitOn separator = init ++ [last] → after.splitOn separator = first :: later →
      place last first

theorem overlooks_trim (hblank : isBlank blank) : Overlooks trim blank AtEdge := by
  rintro before after (rfl | rfl)
  · exact trim_cons_blank hblank after
  · rw [List.append_nil]
    exact trim_append_blank hblank before

theorem overlooks_find? (hblank : isBlank blank) (place : Text → Text → Prop) :
    Overlooks (List.find? (!isBlank ·)) blank place := by
  intro before after _
  simp [List.find?_append, hblank]

namespace Overlooks

theorem map (h : Overlooks f blank place) (g : α → β) :
    Overlooks (fun text => g (f text)) blank place :=
  fun before after hplace => congrArg g (h before after hplace)

theorem map_splitOn (h : Overlooks f blank place) (hne : blank ≠ separator)
    (hnarrow : Narrows separator wide place) :
    Overlooks (fun text => (text.splitOn separator).map f) blank wide := by
  intro before after hplace
  obtain ⟨init, last, first, later, hbefore, hafter, hmeet⟩ := splitOn_append separator before after
  obtain ⟨init', last', first', later', hbefore', hafter', hmeet'⟩ :=
    splitOn_append separator before (blank :: after)
  -- the pieces of what is before the blank are the same for both, and the blank goes into the first
  -- piece of what is after it
  obtain ⟨rfl, hlast⟩ := List.append_inj' (hbefore.symm.trans hbefore') rfl
  obtain ⟨rfl, -⟩ := List.cons.inj hlast
  rw [splitOn_cons hne, hafter, List.modifyHead_cons] at hafter'
  obtain ⟨rfl, rfl⟩ := List.cons.inj hafter'
  have hpiece := h last first (hnarrow hplace hbefore hafter)
  simp [hmeet, hmeet', hpiece]

/-- What overlooks all blanks at the edges does not tell a text from the trimmed one. -/
theorem apply_trim (h : ∀ blank, isBlank blank → Overlooks f blank AtEdge) (text : Text) :
    f (trim text) = f text := by
  have hleft : ∀ text, f (trimLeft text) = f text := by
    intro text
    induction text with
    | nil => rfl
    | cons c text ih =>
      cases hc : isBlank c with
      | false => rw [trimLeft_of_not_blank hc]
      | true =>
        have hdrop : trimLeft (c :: text) = trimLeft text := by simp [trimLeft, hc]
        rw [hdrop, ih]
        exact (h c hc [] text (.inl rfl)).symm
  have hright : ∀ text, f (trimRight text) = f text := by
    intro text
    induction text using List.reverseRecOn with
    | nil => rfl
    | append_singleton text c ih =>
      cases hc : isBlank c with
      | false =>
        have hsolid : Solid [c] := .of_no_blank (List.cons_ne_nil c []) (by simpa using hc)
        rw [hsolid.trimRight_append]
      | true =>
        have hdrop : trimRight (text ++ [c]) = trimRight text := trimRight_append_blank hc text
        rw [hdrop, ih]
        have hedge := h c hc text [] (.inr rfl)
        rw [List.append_nil] at hedge
        exact hedge.symm
  exact (hright _).trans (hleft text)

end Overlooks

theorem narrows_edge (separator : Char) : Narrows separator AtEdge AtEdge := by
  rintro _ _ (rfl | rfl) init last first later hbefore hafter
  · rw [List.splitOn_nil] at hbefore
    have hlast : [] ++ [[]] = init ++ [last] := hbefore
    exact .inl (List.cons.inj (List.append_inj' hlast rfl).2).1.symm
  · rw [List.splitOn_nil] at hafter
    exact .inr (List.cons.inj hafter).1.symm

/-- At a separator a new piece starts. -/
theorem narrows_separator (separator : Char) : Narrows separator (Beside separator) AtEdge := by
  rintro before after (h | h) init last first later hbefore hafter
  · obtain ⟨before, rfl⟩ := List.getLast?_eq_some_iff.mp h
    rw [List.splitOn_append_cons_self, List.splitOn_nil] at hbefore
    exact .inl (List.cons.inj (List.append_inj' hbefore rfl).2).1.symm
  · obtain ⟨after, rfl⟩ := List.head?_eq_some_iff.mp h
    rw [List.splitOn_cons_eq_if_modifyHead, if_pos (by simp)] at hafter
    exact .inr (List.cons.inj hafter).1.symm

theorem narrows_mark (hne : mark ≠ separator) : Narrows separator (Beside mark) (Beside mark) := by
  rintro before after (h | h) init last first later hbefore hafter
  · obtain ⟨before, rfl⟩ := List.getLast?_eq_some_iff.mp h
    obtain ⟨_, piece, _, _, -, hmark, happend⟩ := splitOn_append separator before [mark]
    rw [List.splitOn_eq_singleton (by simpa using hne.symm)] at hmark
    obtain ⟨rfl, rfl⟩ := List.cons.inj hmark
    obtain ⟨-, hlast⟩ := List.append_inj' (hbefore.symm.trans happend) rfl
    rw [(List.cons.inj hlast).1]
    exact .inl (by simp)
  · obtain ⟨after, rfl⟩ := List.head?_eq_some_iff.mp h
    obtain ⟨piece, rest, hsplit⟩ := List.exists_cons_of_ne_nil (List.splitOn_ne_nil separator after)
    rw [splitOn_cons hne, hsplit, List.modifyHead_cons] at hafter
    rw [← (List.cons.inj hafter).1]
    exact .inr rfl

section Items
variable (hblank : isBlank blank) (hseparator : isBlank separator = false)
include hblank hseparator

theorem blank_ne : blank ≠ separator := by
  rintro rfl
  rw [hblank] at hseparator
  cases hseparator

theorem overlooks_items_edge : Overlooks (items separator) blank AtEdge := by
  have hne := blank_ne hblank hseparator
  rintro before after (rfl | rfl)
  · exact items_cons_blank hblank hne after
  · rw [List.append_nil]
    exact items_append_blank hblank hne before

theorem overlooks_items_separator : Overlooks (items separator) blank (Beside separator) :=
  ((overlooks_trim hblank).map_splitOn (blank_ne hblank hseparator)
    (narrows_separator separator)).map _

end Items

end BoundedDerivation.Text
