import BoundedDerivation.Rules.Store

/-! Rule stores that are changed in place. A call gives a verdict and leaves a store behind, whatever
the verdict is: nothing undoes what a call has changed before it fails. -/
namespace BoundedDerivation

abbrev StoreCall (Store α : Type) := ExceptT GrammarError (StateM Store) α

namespace StoreCall

variable {ι Store α : Type}

/-- The verdict of a call on a store, and the store that it leaves. -/
def outcome (call : StoreCall Store α) (store : Store) : Except GrammarError α × Store :=
  StateT.run (ExceptT.run call) store

/-- Calls on one store, one after the other and each with its verdict. The later ones are made
also if an earlier one has failed. -/
def runAll (call : ι → StoreCall Store α) :
    List ι → Store → List (ι × Except GrammarError α) × Store
  | [], store => ([], store)
  | argument :: later, store =>
    let (verdict, store) := (call argument).outcome store
    let (log, store) := runAll call later store
    ((argument, verdict) :: log, store)

/-- What has been taken in, if these are the verdicts that say so. -/
def accepted (takes : Except GrammarError α → Bool) (log : List (ι × Except GrammarError α)) :
    List ι :=
  (log.filter (takes ·.2)).map Prod.fst

end StoreCall

namespace ContextFreeRules

/-- Takes a rule in if the alphabet has its symbols. -/
def addInPlace (alphabet : Alphabet) (rule : Rule) : StoreCall ContextFreeRules Unit := do
  check alphabet rule
  modify (·.insert rule)

/-- What comes of adding rules to an empty store, each against an alphabet of its own. -/
def addAllInPlace (additions : List (Alphabet × Rule)) :
    List ((Alphabet × Rule) × Except GrammarError Unit) × ContextFreeRules :=
  StoreCall.runAll (fun addition => addInPlace addition.1 addition.2) additions empty

end ContextFreeRules

namespace MatrixRules

def append (store : MatrixRules) (matrix : Matrix) (h : matrix.rules ≠ []) : MatrixRules where
  matrices := store.matrices ++ [matrix]
  inhabited := List.forall_mem_append.mpr ⟨store.inhabited, List.forall_mem_singleton.mpr h⟩

/-- Appends a matrix and says whether it has done so: one without rules is passed over. -/
def pushInPlace (matrix : Matrix) : StoreCall MatrixRules Bool := do
  if h : matrix.rules = [] then
    return false
  else
    if let some rule := matrix.rules.find? (·.right = []) then
      throw (.emptyProduction rule.written)
    modify (·.append matrix h)
    return true

/-- What comes of appending matrices to an empty store. -/
def pushAllInPlace (matrices : List Matrix) : List (Matrix × Except GrammarError Bool) × MatrixRules :=
  StoreCall.runAll pushInPlace matrices empty

end MatrixRules
end BoundedDerivation
