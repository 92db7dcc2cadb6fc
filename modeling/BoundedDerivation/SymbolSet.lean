/-! Finite sets of symbols in increasing order. Two sets with the same members are the same value,
so enumerating a set never depends on the way it was put together. -/
namespace BoundedDerivation

structure SymbolSet where
  toList : List Char
  ascending : toList.Pairwise (· < ·)
  deriving DecidableEq

namespace SymbolSet

def empty : SymbolSet := ⟨[], .nil⟩

instance : Membership Char SymbolSet := ⟨fun set c => c ∈ set.toList⟩

theorem mem_def {c : Char} {set : SymbolSet} : c ∈ set ↔ c ∈ set.toList := .rfl

instance (c : Char) (set : SymbolSet) : Decidable (c ∈ set) :=
  inferInstanceAs (Decidable (c ∈ set.toList))

/-- Sorted insertion, which leaves a symbol that is already there alone. -/
def insertSorted (c : Char) : List Char → List Char
  | [] => [c]
  | d :: rest =>
    if c < d then c :: d :: rest
    else if d < c then d :: insertSorted c rest
    else d :: rest

theorem mem_insertSorted {c x : Char} {symbols : List Char} :
    x ∈ insertSorted c symbols ↔ x = c ∨ x ∈ symbols := by
  induction symbols with
  | nil => simp [insertSorted]
  | cons d rest ih =>
    rw [insertSorted]
    split
    · simp
    · split
      · simp only [List.mem_cons, ih]
        exact or_left_comm
      · rename_i hcd hdc
        have : c = d := Char.le_antisymm (Char.not_lt.mp hdc) (Char.not_lt.mp hcd)
        simp [this]

theorem ascending_insertSorted (c : Char) {symbols : List Char}
    (h : symbols.Pairwise (· < ·)) : (insertSorted c symbols).Pairwise (· < ·) := by
  induction symbols with
  | nil => simp [insertSorted]
  | cons d rest ih =>
    obtain ⟨hd, hrest⟩ := List.pairwise_cons.mp h
    rw [insertSorted]
    split
    · rename_i hcd
      refine List.pairwise_cons.mpr ⟨?_, h⟩
      intro x hx
      rcases List.mem_cons.mp hx with rfl | hx
      · exact hcd
      · exact Char.lt_trans hcd (hd x hx)
    · split
      · rename_i hdc
        refine List.pairwise_cons.mpr ⟨?_, ih hrest⟩
        intro x hx
        rcases mem_insertSorted.mp hx with rfl | hx
        · exact hdc
        · exact hd x hx
      · exact h

def insert (set : SymbolSet) (c : Char) : SymbolSet :=
  ⟨insertSorted c set.toList, ascending_insertSorted c set.ascending⟩

def ofList (symbols : List Char) : SymbolSet := symbols.foldl insert empty

@[simp] theorem mem_insert {c x : Char} {set : SymbolSet} : x ∈ set.insert c ↔ x = c ∨ x ∈ set :=
  mem_insertSorted

theorem mem_foldl_insert {x : Char} {symbols : List Char} {set : SymbolSet} :
    x ∈ symbols.foldl insert set ↔ x ∈ symbols ∨ x ∈ set := by
  induction symbols generalizing set with
  | nil => simp
  | cons c rest ih =>
    rw [List.foldl_cons, ih, mem_insert, List.mem_cons]
    exact ⟨by rintro (h | rfl | h) <;> simp [*], by rintro ((rfl | h) | h) <;> simp [*]⟩

@[simp] theorem mem_ofList {x : Char} {symbols : List Char} : x ∈ ofList symbols ↔ x ∈ symbols := by
  rw [ofList, mem_foldl_insert]
  simp [empty, mem_def]

/-- The least symbol that two sets share. -/
def firstShared (a b : SymbolSet) : Option Char := a.toList.find? (· ∈ b)

end SymbolSet
end BoundedDerivation
