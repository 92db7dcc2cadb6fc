import BoundedDerivation.Alphabet
import BoundedDerivation.Randomness.Shuffle

/-! The rules of a context-free grammar, grouped by their left symbols. -/
namespace BoundedDerivation
open Randomness

/-- The groups stand in increasing order of their symbols and none is empty, so that stores with
the same alternatives for every symbol are equal. -/
structure ContextFreeRules where
  groups : List (Char × List Word)
  ascending : (groups.map Prod.fst).Pairwise (· < ·)
  inhabited : ∀ group ∈ groups, group.2 ≠ []
  deriving DecidableEq

namespace ContextFreeRules

theorem ascending_nil : (([] : List (Char × List Word)).map Prod.fst).Pairwise (· < ·) := .nil

theorem inhabited_nil : ∀ group ∈ ([] : List (Char × List Word)), group.2 ≠ [] :=
  List.forall_mem_nil _

def empty : ContextFreeRules := ⟨[], ascending_nil, inhabited_nil⟩

/-- Sorted insertion: a right side goes to the end of its symbol's group. -/
def insertGroup (left : Char) (right : Word) : List (Char × List Word) → List (Char × List Word)
  | [] => [(left, [right])]
  | (symbol, rights) :: rest =>
    if left < symbol then (left, [right]) :: (symbol, rights) :: rest
    else if symbol < left then (symbol, rights) :: insertGroup left right rest
    else (symbol, rights ++ [right]) :: rest

theorem mem_map_insertGroup {left x : Char} {right : Word} {groups : List (Char × List Word)} :
    x ∈ (insertGroup left right groups).map Prod.fst ↔ x = left ∨ x ∈ groups.map Prod.fst := by
  induction groups with
  | nil => simp [insertGroup]
  | cons group rest ih =>
    obtain ⟨symbol, rights⟩ := group
    rw [insertGroup]
    split
    · simp
    · split
      · simp only [List.map_cons, List.mem_cons, ih]
        exact or_left_comm
      · rename_i h₁ h₂
        have : left = symbol := Char.le_antisymm (Char.not_lt.mp h₂) (Char.not_lt.mp h₁)
        simp [this]

theorem ascending_insertGroup (left : Char) (right : Word) {groups : List (Char × List Word)}
    (h : (groups.map Prod.fst).Pairwise (· < ·)) :
    ((insertGroup left right groups).map Prod.fst).Pairwise (· < ·) := by
  induction groups with
  | nil => simp [insertGroup]
  | cons group rest ih =>
    obtain ⟨symbol, rights⟩ := group
    obtain ⟨hs, hrest⟩ := List.pairwise_cons.mp h
    rw [insertGroup]
    split
    · rename_i hlt
      refine List.pairwise_cons.mpr ⟨?_, h⟩
      intro x hx
      rcases List.mem_cons.mp hx with rfl | hx
      · exact hlt
      · exact Char.lt_trans hlt (hs x hx)
    · split
      · rename_i hlt
        refine List.pairwise_cons.mpr ⟨?_, ih hrest⟩
        intro x hx
        rcases mem_map_insertGroup.mp hx with rfl | hx
        · exact hlt
        · exact hs x hx
      · exact h

theorem inhabited_insertGroup (left : Char) (right : Word) {groups : List (Char × List Word)}
    (h : ∀ group ∈ groups, group.2 ≠ []) :
    ∀ group ∈ insertGroup left right groups, group.2 ≠ [] := by
  induction groups with
  | nil => simp [insertGroup]
  | cons group rest ih =>
    obtain ⟨symbol, rights⟩ := group
    obtain ⟨hs, hrest⟩ := List.forall_mem_cons.mp h
    rw [insertGroup]
    split
    · exact List.forall_mem_cons.mpr ⟨by simp, h⟩
    · split
      · exact List.forall_mem_cons.mpr ⟨hs, ih hrest⟩
      · exact List.forall_mem_cons.mpr ⟨by simp, hrest⟩

def insert (rules : ContextFreeRules) (rule : Rule) : ContextFreeRules :=
  ⟨insertGroup rule.left rule.right rules.groups, ascending_insertGroup _ _ rules.ascending,
    inhabited_insertGroup _ _ rules.inhabited⟩

/-- Both sides against an alphabet, the left one first. -/
def check (alphabet : Alphabet) (rule : Rule) : Except GrammarError Unit :=
  if !alphabet.isNonterminal rule.left then .error (.undeclaredNonterminal rule.left)
  else if rule.right = [] then .error (.emptyProduction rule.written)
  else match alphabet.firstUndeclared rule.right with
    | some symbol => .error (.undeclaredSymbol symbol rule)
    | none => .ok ()

/-- Takes a rule in if the alphabet has its symbols. -/
def add (rules : ContextFreeRules) (alphabet : Alphabet) (rule : Rule) :
    Except GrammarError ContextFreeRules := do
  check alphabet rule
  return rules.insert rule

/-- The store that results from adding rules one by one, unless one of them is refused. -/
def ofRules (alphabet : Alphabet) (rules : List Rule) : Except GrammarError ContextFreeRules :=
  rules.foldlM (fun (store : ContextFreeRules) rule => store.add alphabet rule) empty

def alternatives (rules : ContextFreeRules) (symbol : Char) : List Word :=
  (rules.groups.lookup symbol).getD []

@[simp] theorem alternatives_empty (symbol : Char) : empty.alternatives symbol = [] := rfl

theorem lookup_eq_none {symbol : Char} {groups : List (Char × List Word)}
    (h : ∀ x ∈ groups.map Prod.fst, symbol < x) : groups.lookup symbol = none := by
  refine List.lookup_eq_none_iff.mpr fun group hgroup => bne_iff_ne.mpr fun he => ?_
  have hlt := h group.1 (List.mem_map_of_mem hgroup)
  rw [he] at hlt
  exact Char.lt_irrefl _ hlt

theorem lookup_cons_ne {symbol first : Char} (h : symbol ≠ first) (rights : List Word)
    (rest : List (Char × List Word)) :
    ((first, rights) :: rest).lookup symbol = rest.lookup symbol := by
  rw [List.lookup_cons, beq_eq_false_iff_ne.mpr h]

theorem lookup_insertGroup (left symbol : Char) (right : Word)
    {groups : List (Char × List Word)} (h : (groups.map Prod.fst).Pairwise (· < ·)) :
    ((insertGroup left right groups).lookup symbol).getD [] =
      (groups.lookup symbol).getD [] ++ if symbol = left then [right] else [] := by
  induction groups with
  | nil =>
    by_cases hs : symbol = left
    · simp [insertGroup, hs]
    · simp [insertGroup, hs, lookup_cons_ne hs]
  | cons group rest ih =>
    obtain ⟨first, rights⟩ := group
    obtain ⟨hfirst, hrest⟩ := List.pairwise_cons.mp h
    rw [insertGroup]
    split
    · rename_i hlt
      by_cases hs : symbol = left
      · have hnone : ((first, rights) :: rest).lookup left = none := by
          refine lookup_eq_none fun x hx => ?_
          rcases List.mem_cons.mp hx with rfl | hx
          · exact hlt
          · exact Char.lt_trans hlt (hfirst x hx)
        rw [hs, hnone]
        simp
      · simp [hs, lookup_cons_ne hs]
    · split
      · rename_i hlt
        by_cases hs : symbol = first
        · have hne : first ≠ left := fun he => Char.lt_irrefl _ (he ▸ hlt)
          simp [hs, hne]
        · rw [lookup_cons_ne hs, lookup_cons_ne hs, ih hrest]
      · rename_i h₁ h₂
        have : left = first := Char.le_antisymm (Char.not_lt.mp h₂) (Char.not_lt.mp h₁)
        subst this
        by_cases hs : symbol = left
        · simp [hs]
        · simp [hs, lookup_cons_ne hs]

/-- A new rule becomes the last alternative of its symbol. -/
@[simp] theorem alternatives_insert (rules : ContextFreeRules) (rule : Rule) (symbol : Char) :
    (rules.insert rule).alternatives symbol =
      rules.alternatives symbol ++ if symbol = rule.left then [rule.right] else [] :=
  lookup_insertGroup _ _ _ rules.ascending

/-- All rules, by symbol and within a symbol in the order of their arrival. -/
def toList (rules : ContextFreeRules) : List Rule :=
  rules.groups.flatMap fun (left, rights) => rights.map (Rule.mk left)

def groupsSize : List (Char × List Word) → Nat
  | [] => 0
  | (_, rights) :: rest => rights.length + groupsSize rest

def size (rules : ContextFreeRules) : Nat := groupsSize rules.groups

theorem groupsSize_insertGroup (left : Char) (right : Word) (groups : List (Char × List Word)) :
    groupsSize (insertGroup left right groups) = groupsSize groups + 1 := by
  induction groups with
  | nil => rfl
  | cons group rest ih =>
    obtain ⟨first, rights⟩ := group
    rw [insertGroup]
    split
    · simp [groupsSize, Nat.add_comm]
    · split
      · simp [groupsSize, ih, Nat.add_assoc]
      · simp [groupsSize, Nat.add_right_comm]

@[simp] theorem size_insert (rules : ContextFreeRules) (rule : Rule) :
    (rules.insert rule).size = rules.size + 1 :=
  groupsSize_insertGroup _ _ _

def isEmpty (rules : ContextFreeRules) : Bool := rules.groups.isEmpty

def validate (rules : ContextFreeRules) (alphabet : Alphabet) : Except GrammarError Unit :=
  rules.toList.forM (check alphabet)

/-- The words that replacing one symbol's leftmost occurrence gives. -/
def replacements (word : Word) (symbol : Char) (rights : List Word) : List Word :=
  rights.filterMap (word.replaceFirst symbol)

/-- The words one step away: symbols in increasing order, alternatives in theirs. -/
def successors (rules : ContextFreeRules) (alphabet : Alphabet) (word : Word) : List Word :=
  (alphabet.nonterminalsIn word).flatMap fun symbol =>
    replacements word symbol (rules.alternatives symbol)

variable {σ : Type} [Source σ]

/-- A block of replacements for each symbol in turn, each block in random order. -/
def shuffledBlocks (rules : ContextFreeRules) (word : Word) :
    List Char → σ → Option (List Word × σ)
  | [], source => some ([], source)
  | symbol :: rest, source => do
    let (rights, source) ← shuffle (rules.alternatives symbol) source
    let (later, source) ← shuffledBlocks rules word rest source
    return (replacements word symbol rights ++ later, source)

/-- The words one step away in the order in which a search tries them: both the symbols and the
alternatives of each symbol are shuffled. -/
def candidates (rules : ContextFreeRules) (alphabet : Alphabet) (word : Word) (source : σ) :
    Option (List Word × σ) := do
  let (symbols, source) ← shuffle (alphabet.nonterminalsIn word) source
  shuffledBlocks rules word symbols source

end ContextFreeRules
end BoundedDerivation
