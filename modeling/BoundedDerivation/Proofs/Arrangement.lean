import BoundedDerivation.Proofs.Drawing
import Mathlib.Data.List.FinRange
import Mathlib.Data.List.Forall2

/-! The order in which candidates are drawn. Random choices cannot put the successors of a word into
just any order: those that come from one nonterminal stay together, and those of matrices come in an
order of the matrices. What they are is not up to chance, down to the repetitions. -/
namespace BoundedDerivation
namespace Randomness

variable {σ : Type} [Source σ] {α β : Type}

theorem map_swapIfInBounds (f : α → β) (items : Array α) (i j : Nat) :
    (items.map f).swapIfInBounds i j = (items.swapIfInBounds i j).map f := by
  apply Array.ext
  · simp
  · intro k _ _
    grind

theorem shufflePlaces_map (f : α → β) (last : Nat) (items : Array α) (source : σ) :
    shufflePlaces last (items.map f) source =
      (shufflePlaces last items source).map (Prod.map (Array.map f) id) := by
  induction last generalizing items source with
  | zero => rfl
  | succ last ih =>
    rw [shufflePlaces, shufflePlaces]
    cases below (last + 2) source with
    | none => rfl
    | some drawn =>
      obtain ⟨choice, next⟩ := drawn
      dsimp only
      rw [map_swapIfInBounds, ih]

/-- Elements are moved without a look at them: shuffling their names is shuffling them. -/
theorem shuffle_map (f : α → β) (items : List α) (source : σ) :
    shuffle (items.map f) source = (shuffle items source).map (Prod.map (List.map f) id) := by
  rw [shuffle, shuffle, List.length_map, ← List.map_toArray, shufflePlaces_map, Option.map_map,
    Option.map_map]
  congr 1
  funext drawn
  simp

end Randomness
open Randomness

variable {σ : Type} [Source σ] {source later : σ} {word : Word} {found : List Word}

namespace ContextFreeRules

variable {rules : ContextFreeRules} {alphabet : Alphabet} {symbol : Char} {symbols : List Char}

/-- The words that one symbol gives rise to: the leftmost occurrence gives way to each alternative,
to repeated ones as often as they are there. -/
def IsBlock (rules : ContextFreeRules) (word : Word) (symbol : Char) (block : List Word) : Prop :=
  ∃ before after, symbol ∉ before ∧ word = before ++ symbol :: after ∧
    block.Perm ((rules.alternatives symbol).map fun right => before ++ right ++ after)

/-- One block after the other, one for each nonterminal of the word that has alternatives. -/
def InBlocks (rules : ContextFreeRules) (alphabet : Alphabet) (word : Word) (found : List Word) :
    Prop :=
  ∃ (symbols : List Char) (blocks : List (List Word)), symbols.Nodup ∧
    (∀ symbol, symbol ∈ symbols ↔
      symbol ∈ alphabet.nonterminals ∧ symbol ∈ word ∧ rules.alternatives symbol ≠ []) ∧
    List.Forall₂ (rules.IsBlock word) symbols blocks ∧ found = blocks.flatten

/-- All replacements of a symbol that is there succeed, and at the same place. -/
theorem replacements_append {before : Word} (h : symbol ∉ before) (after : Word)
    (rights : List Word) :
    replacements (before ++ symbol :: after) symbol rights =
      rights.map fun right => before ++ right ++ after := by
  have hreplaced : (before ++ symbol :: after).replaceFirst symbol =
      some ∘ fun right => before ++ right ++ after := by
    funext right
    exact Word.replaceFirst_append h after right
  rw [replacements, hreplaced, List.filterMap_eq_map]

theorem isBlock_replacements (hsymbol : symbol ∈ word) {rights : List Word}
    (hrights : rights.Perm (rules.alternatives symbol)) :
    rules.IsBlock word symbol (replacements word symbol rights) := by
  obtain ⟨before, after, rfl, hbefore⟩ := List.eq_append_cons_of_mem hsymbol
  rw [replacements_append hbefore]
  exact ⟨before, after, hbefore, rfl, hrights.map _⟩

/-- Symbols without alternatives leave nothing behind, not even an empty block. -/
theorem exists_blocks_of_shuffledBlocks (hword : ∀ symbol ∈ symbols, symbol ∈ word)
    (h : rules.shuffledBlocks word symbols source = some (found, later)) :
    ∃ blocks, List.Forall₂ (rules.IsBlock word)
      (symbols.filter fun symbol => rules.alternatives symbol ≠ []) blocks ∧
        found = blocks.flatten := by
  induction symbols generalizing source found with
  | nil =>
    cases h
    exact ⟨[], .nil, rfl⟩
  | cons symbol rest ih =>
    obtain ⟨hsymbol, hrest⟩ := List.forall_mem_cons.mp hword
    obtain ⟨⟨rights, next⟩, hshuffle, h⟩ := Option.bind_eq_some_iff.mp h
    obtain ⟨⟨others, last⟩, hothers, h⟩ := Option.bind_eq_some_iff.mp h
    cases h
    have hrights := perm_of_shuffle hshuffle
    obtain ⟨blocks, hblocks, rfl⟩ := ih hrest hothers
    by_cases hnone : rules.alternatives symbol = []
    · rw [hnone] at hrights
      rw [hrights.eq_nil]
      exact ⟨blocks, by simpa [hnone] using hblocks, rfl⟩
    · refine ⟨replacements word symbol rights :: blocks, ?_, rfl⟩
      rw [List.filter_cons_of_pos (by simpa using hnone)]
      exact .cons (isBlock_replacements hsymbol hrights) hblocks

theorem nodup_nonterminalsIn (alphabet : Alphabet) (word : Word) :
    (alphabet.nonterminalsIn word).Nodup := by
  have hnodup : alphabet.nonterminals.toList.Nodup := alphabet.nonterminals.ascending.imp Char.ne_of_lt
  exact hnodup.filter _

theorem inBlocks_of_candidates (h : rules.candidates alphabet word source = some (found, later)) :
    rules.InBlocks alphabet word found := by
  obtain ⟨⟨symbols, next⟩, hshuffle, h⟩ := Option.bind_eq_some_iff.mp h
  have hsymbols := perm_of_shuffle hshuffle
  have hpresent : ∀ symbol, symbol ∈ symbols ↔ symbol ∈ alphabet.nonterminals ∧ symbol ∈ word :=
    fun symbol => hsymbols.mem_iff.trans mem_nonterminalsIn
  obtain ⟨blocks, hblocks, hfound⟩ :=
    exists_blocks_of_shuffledBlocks (fun symbol hs => ((hpresent symbol).mp hs).2) h
  refine ⟨_, blocks, (hsymbols.nodup_iff.mpr (nodup_nonterminalsIn alphabet word)).filter _, ?_,
    hblocks, hfound⟩
  intro symbol
  simp [hpresent, and_assoc]

end ContextFreeRules

namespace MatrixRules

variable {store : MatrixRules}

/-- One word for each matrix that applies, in some order of the places that the matrices have in the
store. -/
def InOrder (store : MatrixRules) (word : Word) (found : List Word) : Prop :=
  ∃ order : List (Fin store.matrices.length), order.Perm (List.finRange store.matrices.length) ∧
    List.Forall₂ (fun place next => store.matrices[place].apply word = some next)
      (order.filter fun place => (store.matrices[place].apply word).isSome) found

theorem forall₂_filterMap {α β : Type} (f : α → Option β) (items : List α) :
    List.Forall₂ (fun item value => f item = some value)
      (items.filter fun item => (f item).isSome) (items.filterMap f) := by
  induction items with
  | nil => exact .nil
  | cons item rest ih =>
    cases hitem : f item with
    | none => simpa [hitem] using ih
    | some value => simpa [hitem] using ih

theorem inOrder_of_candidates (h : store.candidates word source = some (found, later)) :
    store.InOrder word found := by
  obtain ⟨⟨matrices, next⟩, hshuffle, h⟩ := Option.bind_eq_some_iff.mp h
  cases h
  -- shuffling the matrices is shuffling their places
  have hplaces : shuffle store.matrices source =
      (shuffle (List.finRange store.matrices.length) source).map
        (Prod.map (List.map store.matrices.get) id) := by
    rw [← shuffle_map, List.map_get_finRange]
  rw [hplaces] at hshuffle
  obtain ⟨⟨order, last⟩, horder, hmatrices⟩ := Option.map_eq_some_iff.mp hshuffle
  cases hmatrices
  refine ⟨order, perm_of_shuffle horder, ?_⟩
  rw [List.filterMap_map]
  exact forall₂_filterMap _ order

end MatrixRules

namespace RuleStore

/-- What is known of the order in which candidates have been drawn. -/
def Arranges (alphabet : Alphabet) (word : Word) (found : List Word) : RuleStore → Prop
  | contextFree rules => rules.InBlocks alphabet word found
  | matrix store => store.InOrder word found

/-- Unless the source gives out, the candidates of a word are its successors, each as often as it is
one: block by block in a context-free grammar, in an order of the matrices in a matrix grammar. -/
theorem candidates_arrange_successors (store : RuleStore) (alphabet : Alphabet) (word : Word)
    (source : σ) :
    (Settles source → (store.candidates alphabet word source).isSome) ∧
      ∀ found later, store.candidates alphabet word source = some (found, later) →
        found.Perm (store.successors alphabet word) ∧ store.Arranges alphabet word found := by
  have hrearranges := store.rearranges_candidates alphabet word source
  refine ⟨hrearranges.isSome, fun found later h => ⟨hrearranges.perm h, ?_⟩⟩
  cases store with
  | contextFree rules => exact ContextFreeRules.inBlocks_of_candidates h
  | matrix store => exact MatrixRules.inOrder_of_candidates h

end RuleStore
end BoundedDerivation
