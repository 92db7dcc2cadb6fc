import BoundedDerivation.Randomness.Source

/-! Random orders. Each place of a list, from the last to the second, is exchanged with a place
chosen at or before it, so a list of `n` elements takes `n - 1` choices. -/
namespace BoundedDerivation.Randomness

variable {σ : Type} [Source σ] {α : Type}

/-- Settles the places from `last` down to the second. -/
def shufflePlaces : Nat → Array α → σ → Option (Array α × σ)
  | 0, items, source => some (items, source)
  | last + 1, items, source =>
    match below (last + 2) source with
    | none => none
    | some (choice, source) => shufflePlaces last (items.swapIfInBounds (last + 1) choice) source

/-- The elements in random order; none if the source never yields an acceptable draw. -/
def shuffle (items : List α) (source : σ) : Option (List α × σ) :=
  (shufflePlaces (items.length - 1) items.toArray source).map fun (items, source) =>
    (items.toList, source)

theorem perm_swapIfInBounds (items : Array α) (i j : Nat) :
    (items.swapIfInBounds i j).toList.Perm items.toList := by
  unfold Array.swapIfInBounds
  split
  · split
    · exact (Array.swap_perm _ _).toList
    · rfl
  · rfl

theorem perm_shufflePlaces {last : Nat} {items items' : Array α} {source source' : σ}
    (h : shufflePlaces last items source = some (items', source')) :
    items'.toList.Perm items.toList := by
  induction last generalizing items source with
  | zero =>
    obtain ⟨rfl, -⟩ := Prod.mk.injEq .. ▸ Option.some.inj h
    rfl
  | succ last ih =>
    rw [shufflePlaces] at h
    split at h
    · simp at h
    · exact (ih h).trans (perm_swapIfInBounds ..)

/-- Shuffling loses no element and adds none, whatever is drawn. -/
theorem perm_of_shuffle {items items' : List α} {source source' : σ}
    (h : shuffle items source = some (items', source')) : items'.Perm items := by
  obtain ⟨⟨array, last⟩, hs, he⟩ := Option.map_eq_some_iff.mp h
  obtain ⟨rfl, -⟩ := Prod.mk.injEq .. ▸ he
  exact perm_shufflePlaces hs

end BoundedDerivation.Randomness
