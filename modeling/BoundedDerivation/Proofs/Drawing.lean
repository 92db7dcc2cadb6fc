import BoundedDerivation.Proofs.Steps
import BoundedDerivation.Randomness.Draws
import Mathlib.Data.List.Perm.Basic
import Mathlib.Logic.Relation

/-! What random choices may change and what they may not. Whatever is drawn, the candidates of a
word are its successors in some order; and they are found as long as every rejection ends. -/
namespace BoundedDerivation
namespace Randomness

variable {σ : Type} [Source σ] {α β : Type} {source later : σ}

/-- What becomes of a source after some number of draws. -/
def LeadsTo : σ → σ → Prop :=
  Relation.ReflTransGen fun source later => (Source.next source).2 = later

/-- Every rejection that starts now or after any number of draws comes to an end. -/
def Settles (source : σ) : Prop :=
  ∀ later, LeadsTo source later → ∀ range, 2 ≤ range → (below range later).isSome

theorem Settles.of_leadsTo (h : Settles source) (hlater : LeadsTo source later) : Settles later :=
  fun _ hlast => h _ (hlater.trans hlast)

theorem settles_draws (source : Draws) : Settles source :=
  fun later _ range _ => isSome_below_draws range later

theorem leadsTo_of_belowWithin {range tries choice : Nat}
    (h : belowWithin range tries source = some (choice, later)) : LeadsTo source later := by
  induction tries generalizing source with
  | zero => simp [belowWithin] at h
  | succ tries ih =>
    rw [belowWithin] at h
    split at h
    · obtain ⟨-, rfl⟩ := Prod.mk.injEq .. ▸ Option.some.inj h
      exact .single rfl
    · exact .head rfl (ih h)

theorem leadsTo_of_shufflePlaces {last : Nat} {items items' : Array α}
    (h : shufflePlaces last items source = some (items', later)) : LeadsTo source later := by
  induction last generalizing items source with
  | zero =>
    obtain ⟨-, rfl⟩ := Prod.mk.injEq .. ▸ Option.some.inj h
    exact .refl
  | succ last ih =>
    rw [shufflePlaces] at h
    split at h
    · simp at h
    · rename_i hbelow
      exact (leadsTo_of_belowWithin hbelow).trans (ih h)

theorem isSome_shufflePlaces (last : Nat) (items : Array α) (hs : Settles source) :
    (shufflePlaces last items source).isSome := by
  induction last generalizing items source with
  | zero => rfl
  | succ last ih =>
    have hbelow := hs source .refl (last + 2) (by omega)
    obtain ⟨⟨choice, next⟩, hdrawn⟩ := Option.isSome_iff_exists.mp hbelow
    rw [shufflePlaces, hdrawn]
    exact ih _ (hs.of_leadsTo (leadsTo_of_belowWithin hdrawn))

/-- A random rearrangement of `items`: it permutes them, it does nothing to the source but draw,
and it has a result whenever the source settles. -/
structure Rearranges (source : σ) (items : List α) (outcome : Option (List α × σ)) : Prop where
  isSome : Settles source → outcome.isSome
  perm : ∀ {found later}, outcome = some (found, later) → found.Perm items
  leadsTo : ∀ {found later}, outcome = some (found, later) → LeadsTo source later

namespace Rearranges

variable {items : List α} {others : List β} {outcome : Option (List α × σ)}

theorem of_perm {items' : List α} (h : Rearranges source items outcome)
    (hitems : items.Perm items') : Rearranges source items' outcome :=
  ⟨h.isSome, fun he => (h.perm he).trans hitems, h.leadsTo⟩

theorem after (h : Rearranges later items outcome) (hlater : LeadsTo source later) :
    Rearranges source items outcome :=
  ⟨fun hs => h.isSome (hs.of_leadsTo hlater), h.perm, fun he => hlater.trans (h.leadsTo he)⟩

theorem bind {next : List α × σ → Option (List β × σ)} (h : Rearranges source items outcome)
    (hnext : ∀ found later, found.Perm items → Rearranges later others (next (found, later))) :
    Rearranges source others (outcome.bind next) := by
  cases outcome with
  | none => exact ⟨h.isSome, by simp, by simp⟩
  | some result =>
    obtain ⟨found, later⟩ := result
    exact (hnext found later (h.perm rfl)).after (h.leadsTo rfl)

theorem pure {found : List α} (h : found.Perm items) :
    Rearranges source items (some (found, source)) := by
  refine ⟨fun _ => rfl, ?_, ?_⟩
  · rintro _ _ ⟨⟩
    exact h
  · rintro _ _ ⟨⟩
    exact .refl

end Rearranges

theorem rearranges_shuffle (items : List α) (source : σ) :
    Rearranges source items (shuffle items source) := by
  refine ⟨fun hs => ?_, perm_of_shuffle, fun he => ?_⟩
  · simpa [shuffle] using isSome_shufflePlaces (items.length - 1) items.toArray hs
  · obtain ⟨⟨array, last⟩, hplaces, hlast⟩ := Option.map_eq_some_iff.mp he
    obtain ⟨-, rfl⟩ := Prod.mk.injEq .. ▸ hlast
    exact leadsTo_of_shufflePlaces hplaces

end Randomness

open Randomness

variable {σ : Type} [Source σ]

namespace ContextFreeRules

theorem rearranges_shuffledBlocks (rules : ContextFreeRules) (word : Word) (symbols : List Char)
    (source : σ) :
    Rearranges source
      (symbols.flatMap fun symbol => replacements word symbol (rules.alternatives symbol))
      (rules.shuffledBlocks word symbols source) := by
  induction symbols generalizing source with
  | nil => exact .pure .rfl
  | cons symbol rest ih =>
    rw [shuffledBlocks, List.flatMap_cons]
    refine (rearranges_shuffle (rules.alternatives symbol) source).bind fun rights next hrights => ?_
    refine (ih next).bind fun blocks last hblocks => .pure ?_
    exact (hrights.filterMap _).append hblocks

theorem rearranges_candidates (rules : ContextFreeRules) (alphabet : Alphabet) (word : Word)
    (source : σ) :
    Rearranges source (rules.successors alphabet word) (rules.candidates alphabet word source) := by
  refine (rearranges_shuffle (alphabet.nonterminalsIn word) source).bind fun symbols next hs => ?_
  exact (rules.rearranges_shuffledBlocks word symbols next).of_perm (hs.flatMap_right _)

end ContextFreeRules

theorem MatrixRules.rearranges_candidates (store : MatrixRules) (word : Word) (source : σ) :
    Rearranges source (store.successors word) (store.candidates word source) :=
  (rearranges_shuffle store.matrices source).bind fun _ _ hmatrices =>
    .pure (hmatrices.filterMap _)

theorem RuleStore.rearranges_candidates (store : RuleStore) (alphabet : Alphabet) (word : Word)
    (source : σ) :
    Rearranges source (store.successors alphabet word) (store.candidates alphabet word source) := by
  cases store with
  | contextFree rules => exact rules.rearranges_candidates alphabet word source
  | matrix store => exact store.rearranges_candidates word source

/-- The candidates of a word are its successors in some order. -/
theorem Grammar.rearranges_candidates (grammar : Grammar) (word : Word) (source : σ) :
    Rearranges source (grammar.successors word) (grammar.candidates word source) :=
  grammar.rules.rearranges_candidates grammar.alphabet word source

namespace Grammar

/-- What becomes of a source while the candidates of some words are drawn, one word after the other.
It never stops in the middle of a word. -/
def DrawsTo (grammar : Grammar) : σ → σ → Prop :=
  Relation.ReflTransGen fun source later =>
    ∃ word candidates, grammar.candidates word source = some (candidates, later)

theorem DrawsTo.leadsTo {grammar : Grammar} {source later : σ} (h : grammar.DrawsTo source later) :
    LeadsTo source later := by
  induction h with
  | refl => exact .refl
  | tail _ hdrawn ih =>
    obtain ⟨word, candidates, hcandidates⟩ := hdrawn
    exact ih.trans ((grammar.rearranges_candidates word _).leadsTo hcandidates)

/-- The source never gives out while the candidates of words are drawn, one word after the other. -/
def CanDraw (grammar : Grammar) (source : σ) : Prop :=
  ∀ word later, grammar.DrawsTo source later → (grammar.candidates word later).isSome

theorem CanDraw.of_drawsTo {grammar : Grammar} {source later : σ} (h : grammar.CanDraw source)
    (hlater : grammar.DrawsTo source later) : grammar.CanDraw later :=
  fun word _ hlast => h word _ (hlater.trans hlast)

/-- It is enough that all rejections end. -/
theorem canDraw_of_settles (grammar : Grammar) {source : σ} (hs : Settles source) :
    grammar.CanDraw source :=
  fun word later hlater =>
    (grammar.rearranges_candidates word later).isSome (hs.of_leadsTo hlater.leadsTo)

theorem canDraw_draws (grammar : Grammar) (source : Draws) : grammar.CanDraw source :=
  grammar.canDraw_of_settles (settles_draws source)

end Grammar

end BoundedDerivation
