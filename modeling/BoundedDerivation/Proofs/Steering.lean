import BoundedDerivation.Proofs.Drawing

/-! Draws that are chosen beforehand. Every choice can be made to come out as one likes, so a list of
draws can bring any candidate of a word to the front. Such a list is used up to its last draw, and
lists for one word after the other can be put together. -/
namespace BoundedDerivation
namespace Randomness

/-- The least multiple of the range that reaches a choice overshoots it by less than the range. -/
theorem exists_scaled {range choice size : Nat} (hrange : range < size) (hchoice : choice < range) :
    ∃ draw < size, draw * range / size = choice ∧ draw * range % size < range := by
  obtain ⟨draw, hlow, hhigh⟩ : ∃ draw, choice * size ≤ draw * range ∧
      draw * range < choice * size + range := by
    have hsplit := Nat.div_add_mod (choice * size + range - 1) range
    have hmod := Nat.mod_lt (choice * size + range - 1) (Nat.zero_lt_of_lt hchoice)
    rw [Nat.mul_comm] at hsplit
    exact ⟨(choice * size + range - 1) / range, by omega, by omega⟩
  have hscale : (choice + 1) * size ≤ range * size := Nat.mul_le_mul_right _ hchoice
  rw [Nat.add_mul, Nat.one_mul] at hscale
  have hdiv : draw * range / size = choice := by
    refine Nat.div_eq_of_lt_le hlow ?_
    rw [Nat.add_mul, Nat.one_mul]
    omega
  refine ⟨draw, ?_, hdiv, ?_⟩
  · refine Nat.lt_of_mul_lt_mul_right (a := range) ?_
    rw [Nat.mul_comm size]
    omega
  · have hsplit := Nat.div_add_mod (draw * range) size
    rw [hdiv, Nat.mul_comm] at hsplit
    omega

/-- Every choice is made by some draw: remainders below the range are always accepted. -/
theorem exists_accept {range choice : Nat} (hrange : range < UInt32.size)
    (hchoice : choice < range) : ∃ draw, accept range draw = some choice := by
  obtain ⟨draw, hdraw, hdiv, hmod⟩ := exists_scaled hrange hchoice
  have hzone : range ≤ range <<< (31 - range.log2) := by
    rw [Nat.shiftLeft_eq]
    exact Nat.le_mul_of_pos_right _ (Nat.two_pow_pos _)
  have hnat : (UInt32.ofNat draw).toNat = draw := UInt32.toNat_ofNat_of_lt' hdraw
  refine ⟨UInt32.ofNat draw, ?_⟩
  simp only [accept, zone, hnat, hdiv]
  exact if_pos (by omega)

variable {α β : Type}

/-- Some draws make the action come out with the value, and no others are used up by it. -/
def Steerable (action : Draws → Option (α × Draws)) (value : α) : Prop :=
  ∃ values, ∀ later, action ⟨values ++ later⟩ = some (value, ⟨later⟩)

theorem Steerable.pure (value : α) : Steerable (fun source => some (value, source)) value :=
  ⟨[], fun _ => rfl⟩

theorem Steerable.bind {action : Draws → Option (α × Draws)} {value : α}
    {next : α × Draws → Option (β × Draws)} {result : β} (h : Steerable action value)
    (hnext : Steerable (fun source => next (value, source)) result) :
    Steerable (fun source => (action source).bind next) result := by
  obtain ⟨values, hvalues⟩ := h
  obtain ⟨more, hmore⟩ := hnext
  refine ⟨values ++ more, fun later => ?_⟩
  simp only [List.append_assoc, hvalues, Option.bind_some]
  exact hmore later

theorem steerable_below {range choice : Nat} (hrange : range < UInt32.size)
    (hchoice : choice < range) : Steerable (below range) choice := by
  obtain ⟨draw, hdraw⟩ := exists_accept hrange hchoice
  refine ⟨[draw], fun later => ?_⟩
  simp [below, belowWithin, Source.period, Source.next, hdraw]

/-- An element stays in its place until that place is settled, and then goes to the first one. -/
theorem steerable_shufflePlaces {last place : Nat} {items : Array α} (hlast : last < items.size)
    (hsize : items.size < UInt32.size) (hplace : place ≤ last) :
    ∃ found : Array α, found[0]? = items[place]? ∧ Steerable (shufflePlaces last items) found := by
  induction last generalizing items place with
  | zero =>
    obtain rfl := Nat.le_zero.mp hplace
    exact ⟨items, rfl, .pure items⟩
  | succ last ih =>
    obtain ⟨choice, hchoice, next, hnext, hkept⟩ : ∃ choice < last + 2, ∃ next ≤ last,
        (items.swapIfInBounds (last + 1) choice)[next]? = items[place]? := by
      by_cases hp : place = last + 1
      · refine ⟨0, by omega, 0, by omega, ?_⟩
        simp [Array.swapIfInBounds, hlast, hp, Nat.zero_lt_of_lt hlast]
      · refine ⟨last + 1, by omega, place, by omega, ?_⟩
        grind
    obtain ⟨found, hfirst, more, hmore⟩ := @ih next (items.swapIfInBounds (last + 1) choice)
      (by simpa using Nat.lt_of_succ_lt hlast) (by simpa using hsize) hnext
    obtain ⟨values, hvalues⟩ := steerable_below (by omega) hchoice
    refine ⟨found, hfirst.trans hkept, values ++ more, fun later => ?_⟩
    rw [shufflePlaces, List.append_assoc, hvalues]
    exact hmore later

/-- Any element of a list can be drawn first. -/
theorem steerable_shuffle {items : List α} (hsize : items.length < UInt32.size) {first : α}
    (hfirst : first ∈ items) : ∃ others, Steerable (shuffle items) (first :: others) := by
  obtain ⟨place, hplace, rfl⟩ := List.getElem_of_mem hfirst
  obtain ⟨found, hfound, values, hvalues⟩ :=
    @steerable_shufflePlaces α (items.length - 1) place items.toArray (by simp; omega)
      (by simpa using hsize) (by omega)
  have hhead : found.toList.head? = some items[place] := by
    simpa [List.head?_eq_getElem?, hplace] using hfound
  refine ⟨found.toList.tail, values, fun later => ?_⟩
  rw [List.cons_head?_tail hhead, shuffle, hvalues]
  rfl

theorem exists_steerable_shuffle {items : List α} (hsize : items.length < UInt32.size) :
    ∃ found, Steerable (shuffle items) found := by
  cases items with
  | nil => exact ⟨[], .pure []⟩
  | cons first rest =>
    obtain ⟨others, hothers⟩ := steerable_shuffle hsize List.mem_cons_self
    exact ⟨_, hothers⟩

end Randomness

open Randomness

/-- Choices of 32 bits are enough to put the items of every shuffle of a grammar into any order. -/
def RuleStore.FitsDraws : RuleStore → Prop
  | contextFree rules => ∀ symbol, (rules.alternatives symbol).length < UInt32.size
  | matrix store => store.matrices.length < UInt32.size

namespace ContextFreeRules

/-- No symbol has more alternatives than there are rules. -/
theorem length_alternatives_le_size (rules : ContextFreeRules) (symbol : Char) :
    (rules.alternatives symbol).length ≤ rules.size := by
  unfold alternatives size
  generalize rules.groups = groups
  induction groups with
  | nil => exact Nat.le_refl _
  | cons group rest ih =>
    obtain ⟨first, rights⟩ := group
    rw [groupsSize]
    by_cases hs : symbol = first
    · simp [hs]
    · rw [lookup_cons_ne hs]
      omega

variable {rules : ContextFreeRules} {alphabet : Alphabet} {word next : Word}

theorem exists_steerable_shuffledBlocks
    (hsize : ∀ symbol, (rules.alternatives symbol).length < UInt32.size) (word : Word)
    (symbols : List Char) : ∃ blocks, Steerable (rules.shuffledBlocks word symbols) blocks := by
  induction symbols with
  | nil => exact ⟨[], .pure []⟩
  | cons symbol rest ih =>
    obtain ⟨rights, hrights⟩ := exists_steerable_shuffle (hsize symbol)
    obtain ⟨later, hlater⟩ := ih
    exact ⟨_, hrights.bind (hlater.bind (.pure (replacements word symbol rights ++ later)))⟩

/-- The wanted symbol is drawn first, then the wanted one of its alternatives; the blocks of the
other symbols may come out as they like. -/
theorem steerable_candidates
    (hnonterminals : alphabet.nonterminals.toList.length < UInt32.size)
    (hsize : ∀ symbol, (rules.alternatives symbol).length < UInt32.size)
    (h : next ∈ rules.successors alphabet word) :
    ∃ others, Steerable (rules.candidates alphabet word) (next :: others) := by
  obtain ⟨symbol, hsymbol, right, hright, hnext⟩ := mem_successors_iff.mp h
  have hpresent : symbol ∈ alphabet.nonterminalsIn word :=
    mem_nonterminalsIn.mpr ⟨hsymbol, Word.mem_of_replaceFirst hnext⟩
  have hfew : (alphabet.nonterminalsIn word).length < UInt32.size :=
    Nat.lt_of_le_of_lt (List.length_filter_le ..) hnonterminals
  obtain ⟨symbols, hsymbols⟩ := steerable_shuffle hfew hpresent
  obtain ⟨rights, hrights⟩ := steerable_shuffle (hsize symbol) hright
  obtain ⟨later, hlater⟩ := exists_steerable_shuffledBlocks hsize word symbols
  have hblock : replacements word symbol (right :: rights) =
      next :: replacements word symbol rights := List.filterMap_cons_some hnext
  refine ⟨replacements word symbol rights ++ later, hsymbols.bind (hrights.bind (hlater.bind ?_))⟩
  rw [hblock]
  exact .pure _

end ContextFreeRules

theorem MatrixRules.steerable_candidates {store : MatrixRules} {word next : Word}
    (hsize : store.matrices.length < UInt32.size) (h : next ∈ store.successors word) :
    ∃ others, Steerable (store.candidates word) (next :: others) := by
  obtain ⟨matrix, hmatrix, hnext⟩ := mem_successors_iff.mp h
  obtain ⟨matrices, hmatrices⟩ := steerable_shuffle hsize hmatrix
  have hcandidates : (matrix :: matrices).filterMap (·.apply word) =
      next :: matrices.filterMap (·.apply word) := List.filterMap_cons_some hnext
  refine ⟨matrices.filterMap (·.apply word), hmatrices.bind ?_⟩
  rw [← hcandidates]
  exact .pure _

/-- Any successor of a word can be made its first candidate. -/
theorem Grammar.steerable_candidates {grammar : Grammar} {word next : Word}
    (hnonterminals : grammar.alphabet.nonterminals.toList.length < UInt32.size)
    (hrules : grammar.rules.FitsDraws) (h : grammar.Step word next) :
    ∃ others, Steerable (grammar.candidates word) (next :: others) := by
  unfold Step successors at h
  unfold candidates
  cases hr : grammar.rules with
  | contextFree rules =>
    rw [hr] at h hrules
    exact ContextFreeRules.steerable_candidates hnonterminals hrules h
  | matrix store =>
    rw [hr] at h hrules
    exact MatrixRules.steerable_candidates hrules h

end BoundedDerivation
