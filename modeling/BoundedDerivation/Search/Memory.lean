import BoundedDerivation.Grammar.Basic
import Std.Data.HashMap

/-! What a search is asked and what it keeps in mind. Words that have failed are remembered with
the least depth at which they did: a failure with more steps to spare is a failure with fewer. -/
namespace BoundedDerivation.Search
open Randomness

/-- The question, which stays the same while the search runs. -/
structure Problem where
  grammar : Grammar
  target : Target

namespace Problem

def maxDepth (problem : Problem) : Nat := problem.grammar.config.maxDepth

/-- No word longer than this can become a result. -/
def limit (problem : Problem) : Nat :=
  problem.target.lengthLimit problem.grammar.config.maxLength

def isResult (problem : Problem) (word : Word) : Bool :=
  problem.target.admits word && problem.grammar.alphabet.isTerminalWord word

end Problem

/-- What a search reports as it goes along. -/
inductive Note where
  | expanded (word : Word) (depth : Nat)
  | depthReached (word : Word) (depth : Nat)
  | exhausted (word : Word) (depth : Nat)
  | pruned (word : Word) (limit : Nat)
  deriving DecidableEq

/-- The event that a note gives rise to; the generation of candidates is not told. -/
def Note.event? : Note → Option Event
  | expanded .. => none
  | depthReached word depth => some (.depthReached word depth)
  | exhausted word depth => some (.exhausted word depth)
  | pruned word limit => some (.pruned word limit)

structure Memory (σ : Type) where
  /-- The words from the start word to the one under trial. -/
  trace : Array Word
  deadEnds : Std.HashMap Word Nat
  /-- How many words have been entered. -/
  visited : Nat
  source : σ
  /-- Notes so far, newest first. -/
  history : List Note

namespace Memory

variable {σ : Type}

def initial (start : Word) (source : σ) : Memory σ := ⟨#[start], ∅, 0, source, []⟩

def note (memory : Memory σ) (note : Note) : Memory σ :=
  { memory with history := note :: memory.history }

def enter (memory : Memory σ) : Memory σ := { memory with visited := memory.visited + 1 }

def push (memory : Memory σ) (word : Word) : Memory σ :=
  { memory with trace := memory.trace.push word }

def pop (memory : Memory σ) : Memory σ := { memory with trace := memory.trace.pop }

/-- Takes the trace back to its first `length` words. -/
def rollback (memory : Memory σ) (length : Nat) : Memory σ :=
  { memory with trace := memory.trace.shrink length }

def bury (memory : Memory σ) (word : Word) (depth : Nat) : Memory σ :=
  { memory with deadEnds := memory.deadEnds.insert word depth }

@[simp] theorem trace_push (memory : Memory σ) (word : Word) :
    (memory.push word).trace.toList = memory.trace.toList ++ [word] := by simp [push]

@[simp] theorem trace_pop (memory : Memory σ) :
    memory.pop.trace.toList = memory.trace.toList.dropLast := by simp [pop]

@[simp] theorem trace_rollback (memory : Memory σ) (length : Nat) :
    (memory.rollback length).trace.toList = memory.trace.toList.take length := by
  simp [rollback]

/-- Has the word failed with at least as many steps to spare? -/
def hasFailed (memory : Memory σ) (word : Word) (depth : Nat) : Bool :=
  memory.deadEnds[word]?.any (· ≤ depth)

/-- The candidates of a word, drawn from the source and noted. -/
def expand [Source σ] (problem : Problem) (word : Word) (depth : Nat) (memory : Memory σ) :
    Option (List Word × Memory σ) := do
  let (candidates, source) ← problem.grammar.candidates word memory.source
  return (candidates, { memory with source, history := .expanded word depth :: memory.history })

end Memory
end BoundedDerivation.Search
