import BoundedDerivation.Alphabet
import BoundedDerivation.Journal
import BoundedDerivation.Randomness.Shuffle

/-! Matrices, and the rules of a matrix grammar. A matrix applies all of its rules one after the
other, each to what the one before it has left, or it does not apply at all. -/
namespace BoundedDerivation
open Randomness

structure Matrix where
  rules : List Rule
  deriving DecidableEq

namespace Matrix

def apply (matrix : Matrix) (word : Word) : Option Word :=
  matrix.rules.foldlM (fun current rule => rule.apply current) word

def display (matrix : Matrix) : List Char :=
  let rules := matrix.rules.map fun rule => rule.left :: " -> ".toList ++ rule.right
  '[' :: ", ".toList.intercalate rules ++ [']']

end Matrix

/-- A store keeps no matrix without rules: it would apply to every word and change none. -/
structure MatrixRules where
  matrices : List Matrix
  inhabited : ∀ matrix ∈ matrices, matrix.rules ≠ []
  deriving DecidableEq

namespace MatrixRules

def empty : MatrixRules := ⟨[], by simp⟩

/-- Appends a matrix, and refuses one that erases a symbol. One without rules is passed over, in
which case there is no new store. -/
def push? (store : MatrixRules) (matrix : Matrix) : Except GrammarError (Option MatrixRules) :=
  if h : matrix.rules = [] then .ok none
  else match matrix.rules.find? (·.right = []) with
    | some rule => .error (.emptyProduction rule.written)
    | none => .ok <| some ⟨store.matrices ++ [matrix], by
        intro m hm
        rcases List.mem_append.mp hm with hm | hm
        · exact store.inhabited m hm
        · rw [List.mem_singleton.mp hm]
          exact h⟩

def push (store : MatrixRules) (matrix : Matrix) : Except GrammarError MatrixRules :=
  (store.push? matrix).map (·.getD store)

/-- The store that results from appending matrices one by one, unless one of them is refused. -/
def ofMatrices (matrices : List Matrix) : Except GrammarError MatrixRules :=
  matrices.foldlM (fun (store : MatrixRules) matrix => store.push matrix) empty

def size (store : MatrixRules) : Nat := store.matrices.length

def isEmpty (store : MatrixRules) : Bool := store.matrices.isEmpty

/-- Refuses a flaw under strict validation and otherwise reports it. -/
def refuseOrWarn (strict : Bool) (error : GrammarError) (warning : MatrixWarning) : Checked Unit :=
  if strict then .fail error else .tell (.warning warning)

/-- One rule against an alphabet. Lenient validation lets undeclared symbols pass, since a word
that holds one never becomes terminal unless another rule takes the symbol away again. -/
def checkRule (alphabet : Alphabet) (strict : Bool) (rule : Rule) : Checked Unit := do
  if rule.right = [] then
    Checked.fail (.emptyProduction rule.written)
  if !alphabet.isNonterminal rule.left then
    refuseOrWarn strict (.undeclaredNonterminal rule.left) (.undeclaredLeft rule)
  match alphabet.firstUndeclared rule.right with
  | some symbol =>
    refuseOrWarn strict (.undeclaredSymbol symbol rule) (.undeclaredRight symbol rule)
  | none => return ()

def validate (store : MatrixRules) (alphabet : Alphabet) (strict : Bool) : Checked Unit :=
  store.matrices.forM fun matrix => matrix.rules.forM (checkRule alphabet strict)

/-- The words one step away, one for each matrix that applies. -/
def successors (store : MatrixRules) (word : Word) : List Word :=
  store.matrices.filterMap (·.apply word)

/-- The words one step away with the matrices in random order. -/
def candidates {σ : Type} [Source σ] (store : MatrixRules) (word : Word) (source : σ) :
    Option (List Word × σ) := do
  let (matrices, source) ← shuffle store.matrices source
  return (matrices.filterMap (·.apply word), source)

end MatrixRules
end BoundedDerivation
