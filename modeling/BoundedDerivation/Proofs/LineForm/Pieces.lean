import BoundedDerivation.Text.Pieces
import Mathlib.Data.List.Basic

/-! Texts taken apart again. Trimming leaves a text alone that neither starts nor ends with a blank,
and splitting a text at its separators gives the pieces it was joined from, up to the blanks around
them. -/
namespace BoundedDerivation.Text

variable {separator blank : Char} {text : Text} {pieces : List Text}

/-- There is nothing to trim, and there is something. -/
structure Solid (text : Text) : Prop where
  ne_nil : text ≠ []
  trimLeft_eq : trimLeft text = text
  trimRight_eq : trimRight text = text

namespace Solid

theorem trim_eq (h : Solid text) : trim text = text := by
  rw [trim, h.trimLeft_eq, h.trimRight_eq]

theorem of_no_blank (hne : text ≠ []) (h : ∀ c ∈ text, isBlank c = false) : Solid text := by
  refine ⟨hne, ?_, trimRight_of_no_blank h⟩
  obtain ⟨c, text, rfl⟩ := List.exists_cons_of_ne_nil hne
  exact trimLeft_of_not_blank (h c List.mem_cons_self) text

theorem trimRight_append {last : Text} (h : Solid last) (text : Text) :
    trimRight (text ++ last) = text ++ last := by
  induction text with
  | nil => exact h.trimRight_eq
  | cons c text ih => simp [ih, h.ne_nil]

theorem append {first last : Text} (hfirst : Solid first) (hlast : Solid last) (middle : Text) :
    Solid (first ++ middle ++ last) := by
  refine ⟨by simp [hfirst.ne_nil], ?_, hlast.trimRight_append _⟩
  have hleft := hfirst.trimLeft_eq
  obtain ⟨c, rest, rfl⟩ := List.exists_cons_of_ne_nil hfirst.ne_nil
  cases hc : isBlank c with
  | false => exact trimLeft_of_not_blank hc _
  | true =>
    -- a text that starts with a blank gets shorter
    have hshorter : (trimLeft (c :: rest)).length ≤ rest.length := by
      simpa [trimLeft, hc] using (List.dropWhile_suffix isBlank).length_le
    rw [hleft, List.length_cons] at hshorter
    omega

theorem join (separator : Text) (hne : pieces ≠ []) (h : ∀ piece ∈ pieces, Solid piece) :
    Solid (join separator pieces) := by
  unfold Text.join
  induction pieces with
  | nil => exact absurd rfl hne
  | cons piece pieces ih =>
    obtain ⟨hpiece, hpieces⟩ := List.forall_mem_cons.mp h
    cases pieces with
    | nil => simpa using hpiece
    | cons second more =>
      rw [List.intercalate_cons_cons]
      exact hpiece.append (ih (by simp) hpieces) separator

end Solid

theorem trim_join (separator : Text) (h : ∀ piece ∈ pieces, Solid piece) :
    trim (join separator pieces) = join separator pieces := by
  by_cases hpieces : pieces = []
  · subst hpieces
    rfl
  · exact (Solid.join separator hpieces h).trim_eq

theorem head?_join {piece : Text} (h : piece ≠ []) (separator : Text) (pieces : List Text) :
    (join separator (piece :: pieces)).head? = piece.head? := by
  obtain ⟨c, rest, rfl⟩ := List.exists_cons_of_ne_nil h
  cases pieces <;> simp [join, List.intercalate_cons_cons]

theorem not_mem_join {c : Char} {separator : Text} (hseparator : c ∉ separator)
    (h : ∀ piece ∈ pieces, c ∉ piece) : c ∉ join separator pieces := by
  unfold join
  induction pieces with
  | nil => simp
  | cons piece pieces ih =>
    obtain ⟨hpiece, hpieces⟩ := List.forall_mem_cons.mp h
    cases pieces with
    | nil => simpa using hpiece
    | cons second more =>
      rw [List.intercalate_cons_cons]
      simp [hpiece, hseparator, ih hpieces]

theorem trim_cons_blank (hblank : isBlank blank) (text : Text) :
    trim (blank :: text) = trim text := by
  simp [trim, trimLeft, hblank]

theorem trimRight_append_blank (hblank : isBlank blank) (text : Text) :
    trimRight (text ++ [blank]) = trimRight text := by
  induction text with
  | nil => simp [hblank]
  | cons c text ih => simp [ih]

theorem trim_append_blank (hblank : isBlank blank) (text : Text) :
    trim (text ++ [blank]) = trim text := by
  induction text with
  | nil => simp [trim, trimLeft, hblank]
  | cons c text ih =>
    cases hc : isBlank c with
    | true => rw [List.cons_append, trim_cons_blank hc, ih, trim_cons_blank hc]
    | false =>
      rw [trim, trim, List.cons_append, trimLeft_of_not_blank hc, trimLeft_of_not_blank hc,
        ← List.cons_append, trimRight_append_blank hblank]

theorem splitOn_cons {c : Char} (h : c ≠ separator) (text : Text) :
    (c :: text).splitOn separator = (text.splitOn separator).modifyHead (c :: ·) := by
  rw [List.splitOn_cons_eq_if_modifyHead, if_neg (by simpa using h)]

/-- Where two texts meet, the last piece of the one and the first piece of the other are one piece.
-/
theorem splitOn_append (separator : Char) (text more : Text) :
    ∃ init last first later, text.splitOn separator = init ++ [last] ∧
      more.splitOn separator = first :: later ∧
      (text ++ more).splitOn separator = init ++ (last ++ first) :: later := by
  induction text with
  | nil =>
    obtain ⟨first, later, hmore⟩ := List.exists_cons_of_ne_nil (List.splitOn_ne_nil separator more)
    exact ⟨[], [], first, later, rfl, hmore, hmore⟩
  | cons c text ih =>
    obtain ⟨init, last, first, later, hsplit, hmore, happend⟩ := ih
    by_cases hc : c = separator
    · subst hc
      refine ⟨[] :: init, last, first, later, ?_, hmore, ?_⟩
      · simp [List.splitOn_cons_eq_if_modifyHead, hsplit]
      · simp [List.splitOn_cons_eq_if_modifyHead, happend]
    · rw [splitOn_cons hc, List.cons_append, splitOn_cons hc, hsplit, happend]
      cases init with
      | nil => exact ⟨[], c :: last, first, later, rfl, hmore, rfl⟩
      | cons piece init => exact ⟨(c :: piece) :: init, last, first, later, rfl, hmore, rfl⟩

/-- The pieces of a text hold nothing else than the text. -/
theorem mem_of_mem_splitOn {c : Char} {piece : Text} (hpiece : piece ∈ text.splitOn separator)
    (hc : c ∈ piece) : c ∈ text := by
  induction text generalizing piece with
  | nil =>
    rw [List.splitOn_nil, List.mem_singleton] at hpiece
    exact hpiece ▸ hc
  | cons d text ih =>
    obtain ⟨first, rest, hsplit⟩ := List.exists_cons_of_ne_nil (List.splitOn_ne_nil separator text)
    rw [hsplit] at ih
    rw [List.splitOn_cons_eq_if_modifyHead, hsplit] at hpiece
    split at hpiece
    · rcases List.mem_cons.mp hpiece with rfl | hpiece
      · cases hc
      · exact List.mem_cons_of_mem d (ih hpiece hc)
    · rcases List.mem_cons.mp hpiece with rfl | hpiece
      · rcases List.mem_cons.mp hc with rfl | hc
        · exact List.mem_cons_self
        · exact List.mem_cons_of_mem d (ih List.mem_cons_self hc)
      · exact List.mem_cons_of_mem d (ih (List.mem_cons_of_mem first hpiece) hc)

theorem not_mem_of_mem_splitOn {piece : Text} (hpiece : piece ∈ text.splitOn separator) :
    separator ∉ piece := by
  induction text generalizing piece with
  | nil =>
    rw [List.splitOn_nil, List.mem_singleton] at hpiece
    exact hpiece ▸ List.not_mem_nil
  | cons c text ih =>
    by_cases hc : c = separator
    · rw [List.splitOn_cons_eq_if_modifyHead, if_pos (by simpa using hc)] at hpiece
      rcases List.mem_cons.mp hpiece with rfl | hpiece
      · exact List.not_mem_nil
      · exact ih hpiece
    · obtain ⟨first, rest, hsplit⟩ := List.exists_cons_of_ne_nil (List.splitOn_ne_nil separator text)
      rw [hsplit] at ih
      rw [splitOn_cons hc, hsplit, List.modifyHead_cons] at hpiece
      rcases List.mem_cons.mp hpiece with rfl | hpiece
      · exact List.not_mem_cons_of_ne_of_not_mem (Ne.symm hc) (ih List.mem_cons_self)
      · exact ih (List.mem_cons_of_mem first hpiece)

theorem trimRight_sublist (text : Text) : (trimRight text).Sublist text := by
  induction text with
  | nil => exact .slnil
  | cons c text ih =>
    rw [trimRight_cons]
    split
    · exact List.nil_sublist _
    · exact ih.cons_cons c

theorem trim_sublist (text : Text) : (trim text).Sublist text :=
  (trimRight_sublist _).trans (List.dropWhile_sublist isBlank)

/-- A trimmed text does not start with a blank. -/
theorem not_isBlank_of_trim_eq_cons {c : Char} {rest : Text} (h : trim text = c :: rest) :
    isBlank c = false := by
  unfold trim at h
  have hhead := List.head?_dropWhile_not isBlank text
  cases hleft : trimLeft text with
  | nil =>
    rw [hleft] at h
    cases h
  | cons d left =>
    have hd : isBlank d = false := by
      rw [show text.dropWhile isBlank = d :: left from hleft] at hhead
      exact hhead
    have hkept : ¬(trimRight left = [] ∧ isBlank d = true) := by simp [hd]
    rw [hleft, trimRight_cons, if_neg hkept] at h
    obtain ⟨rfl, -⟩ := List.cons.inj h
    exact hd

section
variable (hblank : isBlank blank) (hne : blank ≠ separator) (text : Text)
include hblank hne

theorem items_cons_blank : items separator (blank :: text) = items separator text := by
  obtain ⟨first, rest, hsplit⟩ := List.exists_cons_of_ne_nil (List.splitOn_ne_nil separator text)
  simp [items, splitOn_cons hne, hsplit, trim_cons_blank hblank]

theorem items_append_blank : items separator (text ++ [blank]) = items separator text := by
  have hlone : [blank].splitOn separator = [[blank]] :=
    List.splitOn_eq_singleton (by simpa using hne.symm)
  obtain ⟨init, last, first, later, hsplit, hmore, happend⟩ := splitOn_append separator text [blank]
  rw [hlone] at hmore
  obtain ⟨rfl, rfl⟩ := List.cons.inj hmore
  simp [items, hsplit, happend, trim_append_blank hblank]

end

theorem items_join (hsolid : ∀ piece ∈ pieces, Solid piece)
    (hseparator : ∀ piece ∈ pieces, separator ∉ piece) :
    items separator (join [separator] pieces) = pieces := by
  cases pieces with
  | nil => simp [items, join]
  | cons piece pieces =>
    have htrim : (piece :: pieces).map trim = piece :: pieces :=
      (List.map_congr_left fun p hp => (hsolid p hp).trim_eq).trans (List.map_id _)
    rw [items, join, List.splitOn_intercalate _ hseparator (by simp), htrim]
    exact List.filter_eq_self.mpr fun p hp => decide_eq_true (hsolid p hp).ne_nil

/-- Blanks around the separator go unnoticed by what ignores them in the pieces. -/
theorem map_splitOn_join {α : Type} {f : Text → α} (hbefore : ∀ text, f (blank :: text) = f text)
    (hafter : ∀ text, f (text ++ [blank]) = f text) (hne : blank ≠ separator)
    (hpieces : pieces ≠ []) (h : ∀ piece ∈ pieces, separator ∉ piece) :
    ((join [blank, separator, blank] pieces).splitOn separator).map f = pieces.map f := by
  unfold join
  induction pieces with
  | nil => exact absurd rfl hpieces
  | cons piece pieces ih =>
    obtain ⟨hpiece, hmore⟩ := List.forall_mem_cons.mp h
    cases pieces with
    | nil => simp [List.splitOn_eq_singleton hpiece]
    | cons second more =>
      have hfirst : separator ∉ piece ++ [blank] := by simp [hpiece, hne.symm]
      have hrest := ih (by simp) hmore
      rw [List.intercalate_cons_cons, List.map_cons, ← hrest]
      generalize [blank, separator, blank].intercalate (second :: more) = rest
      obtain ⟨next, later, hsplit⟩ := List.exists_cons_of_ne_nil (List.splitOn_ne_nil separator rest)
      have hshape : piece ++ [blank, separator, blank] ++ rest =
          (piece ++ [blank]) ++ separator :: blank :: rest := by simp
      rw [hshape, List.splitOn_append_cons_self_of_not_mem hfirst, splitOn_cons hne, hsplit]
      simp [hbefore, hafter]

theorem lines_flatMap (h : ∀ piece ∈ pieces, '\n' ∉ piece) :
    lines (pieces.flatMap (· ++ ['\n'])) = pieces := by
  have hsplit : (pieces.flatMap (· ++ ['\n'])).splitOn '\n' = pieces ++ [[]] := by
    induction pieces with
    | nil => rfl
    | cons piece pieces ih =>
      obtain ⟨hpiece, hpieces⟩ := List.forall_mem_cons.mp h
      rw [List.flatMap_cons, List.append_assoc, List.singleton_append,
        List.splitOn_append_cons_self_of_not_mem hpiece, ih hpieces, List.cons_append]
  simp [lines, hsplit]

end BoundedDerivation.Text
