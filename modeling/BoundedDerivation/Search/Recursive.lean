import BoundedDerivation.Search.Memory

/-! The search once more, by recursion. All that it does to its memory is said here, with none of the
operations of the search on a stack: a visit is counted, candidates are drawn, a word goes to the end
of the trace and comes off again when its call fails, and a word is buried when its candidates have
run out. -/
namespace BoundedDerivation.Search
open Randomness

variable {σ : Type}

/-- Tries candidates in turn. A failed one is taken off the trace again. -/
def tryEach (enter : Word → Memory σ → Option (Bool × Memory σ)) (limit : Nat) :
    List Word → Memory σ → Option (Bool × Memory σ)
  | [], memory => some (false, memory)
  | candidate :: rest, memory =>
    if limit < candidate.length then
      tryEach enter limit rest
        { memory with history := .pruned candidate limit :: memory.history }
    else
      match enter candidate { memory with trace := memory.trace.push candidate } with
      | none => none
      | some (true, memory) => some (true, memory)
      | some (false, memory) =>
        tryEach enter limit rest { memory with trace := memory.trace.pop }

variable [Source σ]

/-- The search below a word that stands at the end of the trace. -/
def descend (problem : Problem) (depth : Nat) (word : Word) (memory : Memory σ) :
    Option (Bool × Memory σ) :=
  let memory := { memory with visited := memory.visited + 1 }
  if problem.isResult word then some (true, memory)
  else if _h : problem.maxDepth < depth then
    some (false, { memory with history := .depthReached word depth :: memory.history })
  else if memory.deadEnds[word]?.any (· ≤ depth) then some (false, memory)
  else
    match problem.grammar.candidates word memory.source with
    | none => none
    | some (candidates, source) =>
      let memory := { memory with source, history := .expanded word depth :: memory.history }
      match tryEach (fun candidate memory => descend problem (depth + 1) candidate memory)
          problem.limit candidates memory with
      | none => none
      | some (true, memory) => some (true, memory)
      | some (false, memory) =>
        some (false, { memory with
          deadEnds := memory.deadEnds.insert word depth
          history := .exhausted word depth :: memory.history })
termination_by problem.maxDepth + 1 - depth
decreasing_by omega

end BoundedDerivation.Search
