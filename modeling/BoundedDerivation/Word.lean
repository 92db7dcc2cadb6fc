/-! Words and the one way they change. A symbol is a single character, so lengths and positions are
counted in characters, and what gives way to a word is the leftmost occurrence of a symbol. -/
namespace BoundedDerivation

abbrev Word := List Char

namespace Word

instance : Hashable Word := @instHashableList Char instHashableChar

/-- The first occurrence of `symbol` gives way to `replacement`; there is no result without one. -/
def replaceFirst (word : Word) (symbol : Char) (replacement : Word) : Option Word :=
  match word.dropWhile (· != symbol) with
  | [] => none
  | _ :: after => some (word.takeWhile (· != symbol) ++ replacement ++ after)

@[simp] theorem replaceFirst_nil (symbol : Char) (replacement : Word) :
    replaceFirst [] symbol replacement = none := rfl

theorem replaceFirst_cons (c : Char) (word : Word) (symbol : Char) (replacement : Word) :
    replaceFirst (c :: word) symbol replacement =
      if c = symbol then some (replacement ++ word)
      else (replaceFirst word symbol replacement).map (c :: ·) := by
  by_cases h : c = symbol
  · simp [replaceFirst, h]
  · cases hd : word.dropWhile (· != symbol) <;> simp [replaceFirst, h, hd]

theorem replaceFirst_append {before : Word} {symbol : Char} (h : symbol ∉ before)
    (after replacement : Word) :
    replaceFirst (before ++ symbol :: after) symbol replacement =
      some (before ++ replacement ++ after) := by
  induction before with
  | nil => simp [replaceFirst_cons]
  | cons c before ih =>
    obtain ⟨hc, hbefore⟩ := not_or.mp (mt List.mem_cons.mpr h)
    simp [replaceFirst_cons, Ne.symm hc, ih hbefore]

/-- The leftmost occurrence is the one with no other before it. -/
theorem replaceFirst_eq_some_iff {word result replacement : Word} {symbol : Char} :
    word.replaceFirst symbol replacement = some result ↔
      ∃ before after, symbol ∉ before ∧ word = before ++ symbol :: after ∧
        result = before ++ replacement ++ after := by
  constructor
  · intro h
    induction word generalizing result with
    | nil => simp at h
    | cons c word ih =>
      rw [replaceFirst_cons] at h
      split at h
      · rename_i hc
        exact ⟨[], word, by simp, by simp [hc], by simpa using h.symm⟩
      · rename_i hc
        obtain ⟨shorter, hs, rfl⟩ := Option.map_eq_some_iff.mp h
        obtain ⟨before, after, hb, rfl, rfl⟩ := ih hs
        exact ⟨c :: before, after, by simp [hb, Ne.symm hc], rfl, rfl⟩
  · rintro ⟨before, after, h, rfl, rfl⟩
    exact replaceFirst_append h after replacement

theorem replaceFirst_eq_none_iff {word replacement : Word} {symbol : Char} :
    word.replaceFirst symbol replacement = none ↔ symbol ∉ word := by
  induction word with
  | nil => simp
  | cons c word ih =>
    rw [replaceFirst_cons, List.mem_cons]
    split
    · rename_i hc
      simp [hc]
    · rename_i hc
      simp [ih, Ne.symm hc]

end Word
end BoundedDerivation
